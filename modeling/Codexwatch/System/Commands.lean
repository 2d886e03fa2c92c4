import Mathlib.Data.List.Flatten
import Codexwatch.Client.Commands
import Codexwatch.Lib.Run
import Codexwatch.Server.Dispatch

/-!
# From a content request to its upload

The server's commands, the answers to polls, and the client that saves commands and
executes them one after the other. Posts reach the server at any time, in any order
and from anybody; an answer may be delayed or lost.

`next_command` marks a command as dispatched when it answers. An answer that is lost
takes its commands with it: nothing makes them pending again.

## Main definitions

* `World`, `step` — the system and its events.
* `Accounted`, `StartsFresh` — no command is lost, and none is run twice.
* `accounted_run_iff` — which runs lose no command.
-/
namespace Codexwatch.System.Commands

open Protocol Relational Client
open Server (Principal Database CommandPollResponse)

inductive Event
  /-- A request to the server: of an administrator, or one of the posts of an upload. -/
  | server (event : Server.Event)
  /-- A client polls for commands, and the server answers. -/
  | poll (principal : Principal) (now : TimestampMs)
  /-- An answer to this client does not arrive. -/
  | lose (response : ℕ)
  /-- An answer arrives and is saved. -/
  | deliver (response : ℕ) (now : OffsetDateTime)
  /-- `execute_due_command_once` takes a command and prepares its upload. -/
  | start (now : OffsetDateTime)
  /-- The upload went through, and so does the result. -/
  | report (now : TimestampMs)
  /-- `complete_command`, after the result. -/
  | complete (now : OffsetDateTime)
  /-- A post of the upload failed. -/
  | fail (error : String) (now : OffsetDateTime)
  /-- The execution ends with an error, or with the process. -/
  | abandon
  /-- Content is stored. -/
  | store (input : StoredContentInput)
  | cleanup (now : OffsetDateTime)

/-- Where `execute_due_command_once` is. -/
inductive Execution
  | idle
  | uploading (commandId : Uuid) (result : ContentUploadResult)
  | reported (commandId : Uuid) (result : ContentUploadResult)

structure World where
  server : Database
  /-- The answers under way to this client. -/
  responses : List CommandPollResponse
  client : Contents
  execution : Execution
  /-- What the client has completed so far; only statements read it. -/
  completed : List Uuid

section System
variable (codec : Codec) (token : Principal)

def step (w : World) : Event → World
  | .server event => { w with server := Server.step codec w.server event }
  | .poll principal now =>
      match Server.nextCommand principal now w.server.content with
      | .error _ => w
      | .ok (response, content) =>
          { w with
            server := { w.server with content }
            responses :=
              if principal.clientId = token.clientId then w.responses ++ [response]
              else w.responses }
  | .lose response => { w with responses := w.responses.eraseIdx response }
  | .deliver response now =>
      match w.responses[response]? with
      | none => w
      | some answer =>
          { w with
            responses := w.responses.eraseIdx response
            client := saveCommands w.client answer.commands (ts now) }
  | .start now =>
      match w.execution, nextDueCommand w.client now with
      | .idle, some stored =>
          let (preparation, client) := prepareUpload w.client stored.command (ts now)
          { w with
            client
            execution := .uploading (resultOf preparation).1 (resultOf preparation).2 }
      | _, _ => w
  | .report now =>
      match w.execution with
      | .uploading commandId result =>
          match Server.uploadResult token commandId result now w.server.content with
          | .error _ => w
          | .ok content =>
              { w with
                server := { w.server with content }
                execution := .reported commandId result }
      | _ => w
  | .complete now =>
      match w.execution with
      | .reported commandId result =>
          { w with
            client := completeCommand w.client commandId result false (ts now)
            execution := .idle
            completed := commandId :: w.completed }
      | _ => w
  | .fail error now =>
      match w.execution with
      | .uploading commandId _ =>
          { w with
            client := failCommand codec w.client commandId error true now
            execution := .idle }
      | _ => w
  | .abandon => { w with execution := .idle }
  | .store input =>
      match persistContent codec w.client input with
      | none => w
      | some (_, client) => { w with client }
  | .cleanup now => { w with client := cleanup w.client now }

/-- The ids of the commands in an answer. -/
def idsOf (response : CommandPollResponse) : List Uuid :=
  response.commands.map ContentRequestCommand.commandId

/-- The commands on their way to the client. -/
def inFlight (w : World) : List Uuid := w.responses.flatMap idsOf

/-- A command that is not completed is pending, on its way, or will be picked up. -/
def Accounted (w : World) : Prop :=
  ∀ commandId row, w.server.content.commands.get? commandId = some row →
    row.clientId = token.clientId → row.status ≠ .completed →
    row.status = .pending ∨ commandId ∈ inFlight w ∨
      ∃ stored, w.client.commands.get? commandId = some stored ∧ stored.status.isOpen

/-- No upload is started for a command that the client has completed. -/
def StartsFresh (w : World) : Event → Prop
  | .start now => w.execution = .idle → ∀ stored, nextDueCommand w.client now = some stored →
      stored.command.commandId ∉ w.completed
  | _ => True

/-- An answer is lost only when the server has completed its commands meanwhile. -/
def Spares (w : World) : Event → Prop
  | .lose response => ∀ answer, w.responses[response]? = some answer →
      ∀ commandId ∈ idsOf answer, ∀ row, w.server.content.commands.get? commandId = some row →
        row.status = .completed
  | _ => True

/-- No command was ever answered, and the client knows none. -/
structure Begins (w : World) : Prop where
  keyed : ∀ commandId row, w.server.content.commands.get? commandId = some row →
    row.payloadJson.commandId = commandId
  undispatched : ∀ commandId row, w.server.content.commands.get? commandId = some row →
    row.clientId = token.clientId → row.status ≠ .completed → row.status = .pending
  responses : w.responses = []
  commands : w.client.commands = .empty
  execution : w.execution = .idle
  completed : w.completed = []

end System

/-! ## The invariant -/

section Invariant
variable {codec : Codec} {token : Principal} {w : World} {i : ℕ} {answer : CommandPollResponse}

/-- Every command is on its way once at most, and then is new to the client; what the client knows
was dispatched; and what it has completed is completed at the server. -/
structure Ledger (token : Principal) (w : World) : Prop where
  keyed : ∀ id row, w.server.content.commands.get? id = some row → row.payloadJson.commandId = id
  clientKeyed : ∀ id stored, w.client.commands.get? id = some stored →
    stored.payloadJson.commandId = id
  once : (inFlight w).Nodup
  flying : ∀ id ∈ inFlight w, (∃ row, w.server.content.commands.get? id = some row ∧
      row.clientId = token.clientId ∧ row.status ≠ .pending) ∧
    w.client.commands.get? id = none ∧ id ∉ w.completed
  known : ∀ id stored, w.client.commands.get? id = some stored →
    ∃ row, w.server.content.commands.get? id = some row ∧ row.status ≠ .pending
  done : ∀ id ∈ w.completed,
    (∃ row, w.server.content.commands.get? id = some row ∧ row.status = .completed) ∧
      ∀ stored, w.client.commands.get? id = some stored → stored.status.isOpen = false
  uploading : ∀ id result, w.execution = .uploading id result →
    ∃ stored, w.client.commands.get? id = some stored ∧ stored.status.isOpen
  reported : ∀ id result, w.execution = .reported id result →
    (∃ row, w.server.content.commands.get? id = some row ∧ row.status = .completed) ∧
      ∃ stored, w.client.commands.get? id = some stored ∧ stored.status.isOpen

theorem Begins.ledger (h : Begins token w) : Ledger token w where
  keyed := h.keyed
  clientKeyed := by simp [h.commands]
  once := by simp [inFlight, h.responses]
  flying := by simp [inFlight, h.responses]
  known := by simp [h.commands]
  done := by simp [h.completed]
  uploading := by simp [h.execution]
  reported := by simp [h.execution]

theorem Begins.accounted (h : Begins token w) : Accounted token w :=
  fun commandId row hrow hclient hopen => .inl (h.undispatched commandId row hrow hclient hopen)

/-- Taking an answer out takes its commands, and no others. -/
theorem perm_inFlight (h : w.responses[i]? = some answer) :
    (inFlight w).Perm (idsOf answer ++ (w.responses.eraseIdx i).flatMap idsOf) := by
  rcases List.getElem?_eq_some_iff.mp h with ⟨hi, rfl⟩
  have hsplit : w.responses = w.responses.take i ++ w.responses[i] :: w.responses.drop (i + 1) := by
    rw [List.getElem_cons_drop hi, List.take_append_drop]
  have hmiddle : (w.responses.take i ++ w.responses[i] :: w.responses.drop (i + 1)).Perm
      (w.responses[i] :: (w.responses.take i ++ w.responses.drop (i + 1))) := List.perm_middle
  have hperm := hmiddle.flatMap_right idsOf
  rw [← hsplit, ← List.eraseIdx_eq_take_drop_succ, List.flatMap_cons] at hperm
  exact hperm

/-- What the server does to commands that were dispatched: it may complete them. -/
structure Moves (t t' : Server.ContentTables) : Prop where
  old : ∀ id row, t.commands.get? id = some row → ∃ row', t'.commands.get? id = some row' ∧
    row'.clientId = row.clientId ∧ row'.payloadJson = row.payloadJson ∧
      (row.status ≠ .pending → row'.status = row.status ∨ row'.status = .completed)
  fresh : ∀ id row', t.commands.get? id = none → t'.commands.get? id = some row' →
    row'.payloadJson.commandId = id

theorem moves_of_advance {t t' : Server.ContentTables} (h : Server.CommandsAdvance t t') :
    Moves t t' := by
  constructor
  · intro id row hrow
    rcases h.old id row hrow with ⟨row', hrow', hadvanced⟩
    exact ⟨row', hrow', hadvanced.clientId, hadvanced.payloadJson, fun _ => hadvanced.status⟩
  · intro id row' hnone hrow'
    exact (h.fresh id row' hnone hrow').2

/-- Only pending commands are dispatched. -/
theorem moves_markDispatched {t : Server.ContentTables} (clientId : String) (now : TimestampMs) :
    Moves t (Server.markDispatched t ((Server.pendingCommands t clientId).map Prod.fst) now) := by
  constructor
  · intro id row hrow
    rw [Server.get?_markDispatched, hrow, Option.map_some]
    refine ⟨_, rfl, ?_⟩
    split
    · rename_i hid
      rcases List.mem_map.mp hid with ⟨r, hr, rfl⟩
      rcases Server.mem_pendingCommands hr with ⟨hget, -, hpending⟩
      cases hrow.symm.trans hget
      exact ⟨rfl, rfl, fun hne => absurd hpending hne⟩
    · exact ⟨rfl, rfl, fun _ => .inl rfl⟩
  · intro id row' hnone hrow'
    rw [Server.get?_markDispatched, hnone] at hrow'
    cases hrow'

/-- What the server does on its own. -/
theorem Ledger.move (h : Ledger token w) (server : Database)
    (hmoves : Moves w.server.content server.content) : Ledger token { w with server } := by
  have hdispatched : ∀ id, (∃ row, w.server.content.commands.get? id = some row ∧
      row.status ≠ .pending) →
      ∃ row, server.content.commands.get? id = some row ∧ row.status ≠ .pending := by
    rintro id ⟨row, hrow, hne⟩
    rcases hmoves.old id row hrow with ⟨row', hrow', -, -, hstatus⟩
    refine ⟨row', hrow', ?_⟩
    rcases hstatus hne with hsame | hcompleted
    · rwa [hsame]
    · simp [hcompleted]
  have hcompleted : ∀ id, (∃ row, w.server.content.commands.get? id = some row ∧
      row.status = .completed) →
      ∃ row, server.content.commands.get? id = some row ∧ row.status = .completed := by
    rintro id ⟨row, hrow, hdone⟩
    rcases hmoves.old id row hrow with ⟨row', hrow', -, -, hstatus⟩
    refine ⟨row', hrow', ?_⟩
    rcases hstatus (by simp [hdone]) with hsame | hcompleted
    · rw [hsame, hdone]
    · exact hcompleted
  constructor
  · intro id row' hrow'
    cases hold : w.server.content.commands.get? id with
    | none => exact hmoves.fresh id row' hold hrow'
    | some row =>
        rcases hmoves.old id row hold with ⟨row'', hrow'', -, hpayload, -⟩
        cases hrow'.symm.trans hrow''
        rw [hpayload]
        exact h.keyed id row hold
  · exact h.clientKeyed
  · exact h.once
  · intro id hid
    rcases h.flying id hid with ⟨⟨row, hrow, hclient, hne⟩, hrest⟩
    rcases hmoves.old id row hrow with ⟨row', hrow', hsame, -, -⟩
    rcases hdispatched id ⟨row, hrow, hne⟩ with ⟨row'', hrow'', hne''⟩
    cases hrow'.symm.trans hrow''
    exact ⟨⟨row', hrow', hsame.trans hclient, hne''⟩, hrest⟩
  · intro id stored hstored
    exact hdispatched id (h.known id stored hstored)
  · intro id hid
    exact ⟨hcompleted id (h.done id hid).1, (h.done id hid).2⟩
  · exact h.uploading
  · intro id result hreported
    rcases h.reported id result hreported with ⟨hrow, hstored⟩
    exact ⟨hcompleted id hrow, hstored⟩

/-- What the client does on its own, while no result is reported. -/
theorem Ledger.keep (h : Ledger token w) {client : Contents} (hkeeps : Keeps w.client client)
    {execution : Execution}
    (huploading : ∀ id result, execution = .uploading id result →
      ∃ stored, w.client.commands.get? id = some stored ∧ stored.status.isOpen)
    (hreported : ∀ id result, execution = .reported id result → w.execution = execution) :
    Ledger token { w with client, execution } := by
  have hnone : ∀ id, w.client.commands.get? id = none → client.commands.get? id = none := by
    intro id hnone
    cases hget : client.commands.get? id with
    | none => rfl
    | some row' =>
        rcases hkeeps.known id row' hget with ⟨row, hrow, -⟩
        rw [hnone] at hrow
        cases hrow
  constructor
  · exact h.keyed
  · intro id stored hstored
    rcases hkeeps.known id stored hstored with ⟨old, hold, hpayload, -⟩
    rw [hpayload]
    exact h.clientKeyed id old hold
  · exact h.once
  · intro id hid
    rcases h.flying id hid with ⟨hrow, hclient, hcompleted⟩
    exact ⟨hrow, hnone id hclient, hcompleted⟩
  · intro id stored hstored
    rcases hkeeps.known id stored hstored with ⟨old, hold, -⟩
    exact h.known id old hold
  · intro id hid
    refine ⟨(h.done id hid).1, fun stored hstored => ?_⟩
    rcases hkeeps.known id stored hstored with ⟨old, hold, -, hopen⟩
    have hclosed := (h.done id hid).2 old hold
    cases hstatus : stored.status.isOpen with
    | false => rfl
    | true =>
        rw [hopen hstatus] at hclosed
        cases hclosed
  · intro id result hexecution
    rcases huploading id result hexecution with ⟨stored, hstored, hopen⟩
    exact hkeeps.open_ id stored hstored hopen
  · intro id result hexecution
    rcases h.reported id result (hreported id result hexecution ▸ hexecution) with
      ⟨hrow, stored, hstored, hopen⟩
    exact ⟨hrow, hkeeps.open_ id stored hstored hopen⟩

/-! ## The steps -/

/-- The ids of an answer are the keys of the rows. -/
theorem idsOf_pendingCommands (h : Ledger token w) (clientId : String) (now : TimestampMs) :
    idsOf ⟨now, (Server.pendingCommands w.server.content clientId).map fun r => r.2.payloadJson⟩ =
      (Server.pendingCommands w.server.content clientId).map Prod.fst := by
  simp only [idsOf, List.map_map]
  refine List.map_congr_left fun r hr => ?_
  exact h.keyed r.1 r.2 (Server.mem_pendingCommands hr).1

/-- What was pending is on its way now. -/
theorem Ledger.dispatch (h : Ledger token w) (now : TimestampMs) :
    Ledger token { w with
      server := { w.server with
        content := Server.markDispatched w.server.content
          ((Server.pendingCommands w.server.content token.clientId).map Prod.fst) now }
      responses := w.responses ++
        [⟨now, (Server.pendingCommands w.server.content token.clientId).map
          fun r => r.2.payloadJson⟩] } := by
  have hmoved := h.move { w.server with
    content := Server.markDispatched w.server.content
      ((Server.pendingCommands w.server.content token.clientId).map Prod.fst) now }
    (moves_markDispatched token.clientId now)
  have hpending : ∀ id ∈ (Server.pendingCommands w.server.content token.clientId).map Prod.fst,
      ∃ row, w.server.content.commands.get? id = some row ∧ row.clientId = token.clientId ∧
        row.status = .pending := by
    intro id hid
    rcases List.mem_map.mp hid with ⟨r, hr, rfl⟩
    exact ⟨r.2, Server.mem_pendingCommands hr⟩
  have hflight : ∀ responses answer, (responses ++ [answer]).flatMap idsOf =
      responses.flatMap idsOf ++ idsOf answer := by simp
  refine ⟨hmoved.keyed, hmoved.clientKeyed, ?_, ?_, hmoved.known, hmoved.done, hmoved.uploading,
    hmoved.reported⟩
  · rw [inFlight, hflight, idsOf_pendingCommands h]
    refine List.nodup_append.mpr ⟨h.once, Server.nodup_pendingCommands .., ?_⟩
    rintro id hid _ hid' rfl
    rcases h.flying id hid with ⟨⟨row, hrow, -, hne⟩, -⟩
    rcases hpending id hid' with ⟨row', hrow', -, hstatus⟩
    cases hrow.symm.trans hrow'
    exact hne hstatus
  · intro id hid
    rw [inFlight, hflight, idsOf_pendingCommands h, List.mem_append] at hid
    rcases hid with hid | hid
    · exact hmoved.flying id hid
    · rcases hpending id hid with ⟨row, hrow, hclient, hstatus⟩
      refine ⟨⟨{ row with status := .dispatched, deliveredAtMs := some now }, ?_, hclient,
        by simp⟩, ?_, ?_⟩
      · simp only [Server.get?_markDispatched, hrow, Option.map_some, if_pos hid]
      · cases hknown : w.client.commands.get? id with
        | none => rfl
        | some stored =>
            rcases h.known id stored hknown with ⟨row', hrow', hne⟩
            cases hrow.symm.trans hrow'
            exact absurd hstatus hne
      · intro hdone
        rcases (h.done id hdone).1 with ⟨row', hrow', hcompleted⟩
        cases hrow.symm.trans hrow'
        simp [hstatus] at hcompleted

theorem mem_inFlight_eraseIdx {id : Uuid}
    (h : id ∈ (w.responses.eraseIdx i).flatMap idsOf) : id ∈ inFlight w := by
  rcases List.mem_flatMap.mp h with ⟨answer, hanswer, hid⟩
  exact List.mem_flatMap.mpr ⟨answer, (List.eraseIdx_sublist _ _).subset hanswer, hid⟩

theorem Ledger.lose (h : Ledger token w) (i : ℕ) :
    Ledger token { w with responses := w.responses.eraseIdx i } where
  keyed := h.keyed
  clientKeyed := h.clientKeyed
  once := h.once.sublist ((List.eraseIdx_sublist _ _).flatMap idsOf)
  flying id hid := h.flying id (mem_inFlight_eraseIdx hid)
  known := h.known
  done := h.done
  uploading := h.uploading
  reported := h.reported

/-- The commands of an answer are new to the client, and on no other answer. -/
theorem Ledger.deliver (h : Ledger token w) (hanswer : w.responses[i]? = some answer)
    (nowMs : ℤ) :
    Ledger token { w with
      responses := w.responses.eraseIdx i
      client := saveCommands w.client answer.commands nowMs } := by
  have hperm := perm_inFlight hanswer
  have hnodup := hperm.nodup_iff.mp h.once
  have hin : ∀ id ∈ idsOf answer, id ∈ inFlight w := fun id hid =>
    hperm.mem_iff.mpr (List.mem_append_left _ hid)
  have hsaved := fun id => get?_saveCommands (c := w.client) answer.commands nowMs id
  have hcases : ∀ id stored, (saveCommands w.client answer.commands nowMs).commands.get? id =
      some stored → w.client.commands.get? id = some stored ∨
        (id ∈ idsOf answer ∧ stored.payloadJson.commandId = id) := by
    intro id stored hstored
    cases hold : w.client.commands.get? id with
    | some old =>
        left
        rw [← hstored, (hsaved id).1 old hold]
    | none =>
        rcases (hsaved id).2 hold with ⟨-, hnone⟩ | ⟨hid, row, hrow, -, hpayload⟩
        · rw [hstored] at hnone
          cases hnone
        · cases hstored.symm.trans hrow
          exact .inr ⟨hid, hpayload⟩
  constructor
  · exact h.keyed
  · intro id stored hstored
    rcases hcases id stored hstored with hold | ⟨-, hpayload⟩
    · exact h.clientKeyed id stored hold
    · exact hpayload
  · exact (List.nodup_append.mp hnodup).2.1
  · intro id hid
    rcases h.flying id (mem_inFlight_eraseIdx hid) with ⟨hrow, hclient, hcompleted⟩
    refine ⟨hrow, ?_, hcompleted⟩
    rcases (hsaved id).2 hclient with ⟨-, hnone⟩ | ⟨hid', -⟩
    · exact hnone
    · exact absurd rfl ((List.nodup_append.mp hnodup).2.2 id hid' id hid)
  · intro id stored hstored
    rcases hcases id stored hstored with hold | ⟨hid, -⟩
    · exact h.known id stored hold
    · rcases (h.flying id (hin id hid)).1 with ⟨row, hrow, -, hne⟩
      exact ⟨row, hrow, hne⟩
  · intro id hid
    refine ⟨(h.done id hid).1, fun stored hstored => ?_⟩
    rcases hcases id stored hstored with hold | ⟨hid', -⟩
    · exact (h.done id hid).2 stored hold
    · exact absurd hid (h.flying id (hin id hid')).2.2
  · intro id result hexecution
    rcases h.uploading id result hexecution with ⟨stored, hstored, hopen⟩
    exact ⟨stored, (hsaved id).1 stored hstored, hopen⟩
  · intro id result hexecution
    rcases h.reported id result hexecution with ⟨hrow, stored, hstored, hopen⟩
    exact ⟨hrow, stored, (hsaved id).1 stored hstored, hopen⟩

/-- What is reported is completed at the server, and then at the client. -/
theorem Ledger.complete (h : Ledger token w) {commandId : Uuid} {result : ContentUploadResult}
    (hreported : w.execution = .reported commandId result) (nowMs : ℤ) :
    Ledger token { w with
      client := completeCommand w.client commandId result false nowMs
      execution := .idle
      completed := commandId :: w.completed } := by
  rcases h.reported commandId result hreported with ⟨hserver, stored, hstored, -⟩
  have hget := get?_completeCommand (c := w.client) commandId result nowMs
  have hknown : ∀ id row', (completeCommand w.client commandId result false nowMs).commands.get?
      id = some row' → ∃ row, w.client.commands.get? id = some row ∧
        row'.payloadJson = row.payloadJson ∧
          ((id = commandId ∧ row'.status = .completed) ∨ row' = row) := by
    intro id row' hrow'
    rw [hget] at hrow'
    split at hrow'
    · rename_i hid
      rcases Option.map_eq_some_iff.mp hrow' with ⟨row, hrow, rfl⟩
      exact ⟨row, hrow, rfl, .inl ⟨hid, rfl⟩⟩
    · exact ⟨row', hrow', rfl, .inr rfl⟩
  constructor
  · exact h.keyed
  · intro id row' hrow'
    rcases hknown id row' hrow' with ⟨row, hrow, hpayload, -⟩
    rw [hpayload]
    exact h.clientKeyed id row hrow
  · exact h.once
  · intro id hid
    rcases h.flying id hid with ⟨hrow, hclient, hcompleted⟩
    have hne : id ≠ commandId := by
      rintro rfl
      rw [hclient] at hstored
      cases hstored
    refine ⟨hrow, ?_, by simp [hne, hcompleted]⟩
    rw [hget, if_neg hne, hclient]
  · intro id row' hrow'
    rcases hknown id row' hrow' with ⟨row, hrow, -⟩
    exact h.known id row hrow
  · intro id hid
    rcases List.mem_cons.mp hid with rfl | hold
    · refine ⟨hserver, fun row' hrow' => ?_⟩
      rw [hget, if_pos rfl, hstored, Option.map_some, Option.some.injEq] at hrow'
      rw [← hrow']
      rfl
    · refine ⟨(h.done id hold).1, fun row' hrow' => ?_⟩
      rcases hknown id row' hrow' with ⟨row, hrow, -, ⟨-, hstatus⟩ | rfl⟩
      · rw [hstatus]
        rfl
      · exact (h.done id hold).2 row' hrow
  · intro id result' hexecution
    cases hexecution
  · intro id result' hexecution
    cases hexecution

theorem nextCommand_eq_ok {principal : Principal} {now : TimestampMs} {t : Server.ContentTables}
    {r : CommandPollResponse × Server.ContentTables} :
    Server.nextCommand principal now t = .ok r ↔ principal.role.canIngest ∧
      (⟨now, (Server.pendingCommands t principal.clientId).map fun r => r.2.payloadJson⟩,
        Server.markDispatched t ((Server.pendingCommands t principal.clientId).map Prod.fst)
          now) = r := by
  simp only [Server.nextCommand, Server.ensureClientRole, Check.bind_eq_ok, Check.exists_unit_and,
    Check.ensure_eq_ok, Check.pure_eq_ok]

/-- The command that is due is open under its own id. -/
theorem Ledger.due (h : Ledger token w) {now : OffsetDateTime} {stored : StoredCommand}
    (hdue : nextDueCommand w.client now = some stored) :
    ∃ row, w.client.commands.get? stored.command.commandId = some row ∧ row.status.isOpen := by
  rcases nextDueCommand_eq_some hdue with ⟨id, row, hrow, hopen, hpayload⟩
  have hid := h.clientKeyed id row hrow
  rw [hpayload] at hid
  exact ⟨row, hid ▸ hrow, hopen⟩

/-- An upload is taken up under the id of its command. -/
theorem Ledger.start (h : Ledger token w) {now : OffsetDateTime} {stored : StoredCommand}
    (hdue : nextDueCommand w.client now = some stored) :
    Keeps w.client (prepareUpload w.client stored.command (ts now)).2 ∧
      ∃ row, w.client.commands.get?
        (resultOf (prepareUpload w.client stored.command (ts now)).1).1 = some row ∧
          row.status.isOpen := by
  rcases h.due hdue with ⟨row, hrow, hopen⟩
  have honly : ∀ row', w.client.commands.get? stored.command.commandId = some row' →
      row'.status.isOpen := by
    intro row' hrow'
    cases hrow.symm.trans hrow'
    exact hopen
  rcases keeps_prepareUpload (ts now) honly with ⟨hid, hkeeps⟩
  exact ⟨hkeeps, row, hid ▸ hrow, hopen⟩

theorem ledger_step (codec : Codec) (h : Ledger token w) (event : Event) :
    Ledger token (step codec token w event) := by
  cases event with
  | server event => exact h.move _ (moves_of_advance (Server.advanced_step codec w.server event))
  | poll principal now =>
      simp only [step]
      cases hreply : Server.nextCommand principal now w.server.content with
      | error status => exact h
      | ok r =>
          rcases nextCommand_eq_ok.mp hreply with ⟨-, rfl⟩
          by_cases hclient : principal.clientId = token.clientId
          · simp only [hclient, if_true]
            exact h.dispatch now
          · simp only [hclient, if_false]
            exact h.move _ (moves_markDispatched principal.clientId now)
  | lose i => exact h.lose i
  | deliver i now =>
      simp only [step]
      split
      · exact h
      · rename_i answer hanswer
        exact h.deliver hanswer (ts now)
  | start now =>
      simp only [step]
      split
      · rename_i stored hidle hdue
        rcases h.start hdue with ⟨hkeeps, row, hrow, hopen⟩
        refine h.keep hkeeps ?_ ?_
        · intro id result hexecution
          cases hexecution
          exact ⟨row, hrow, hopen⟩
        · intro id result hexecution
          cases hexecution
      · exact h
  | report now =>
      simp only [step]
      split
      · rename_i commandId result hexecution
        cases hreply : Server.uploadResult token commandId result now w.server.content with
        | error status => exact h
        | ok t =>
            have hcompleted := Server.completed_uploadResult hreply
            rcases Server.uploadResult_eq_ok.mp hreply with ⟨-, request, -, -, rfl⟩
            have hmoved := h.move { w.server with
              content := w.server.content.completeRequestAndCommand result.requestId
                (Server.requestStatusOf result.status) now }
              (moves_of_advance (Server.commandsAdvance_complete ..))
            refine ⟨hmoved.keyed, hmoved.clientKeyed, hmoved.once, hmoved.flying, hmoved.known,
              hmoved.done, ?_, ?_⟩
            · intro id result' hreported
              cases hreported
            · intro id result' hreported
              cases hreported
              exact ⟨hcompleted, h.uploading commandId result hexecution⟩
      · exact h
  | complete now =>
      simp only [step]
      split
      · rename_i commandId result hexecution
        exact h.complete hexecution (ts now)
      · exact h
  | fail error now =>
      simp only [step]
      split
      · rename_i commandId result hexecution
        rcases h.uploading commandId result hexecution with ⟨stored, hstored, hopen⟩
        refine h.keep (keeps_failCommand fun row hrow => ?_) ?_ ?_
        · cases hstored.symm.trans hrow
          exact hopen
        · intro id result' hidle
          cases hidle
        · intro id result' hidle
          cases hidle
      · exact h
  | abandon =>
      refine h.keep (.of_eq rfl) ?_ ?_
      · intro id result hidle
        cases hidle
      · intro id result hidle
        cases hidle
  | store input =>
      simp only [step]
      cases hstored : persistContent codec w.client input with
      | none => exact h
      | some r => exact h.keep (keeps_persistContent hstored) h.uploading fun _ _ _ => rfl
  | cleanup now => exact h.keep (keeps_cleanup now) h.uploading fun _ _ _ => rfl

/-- Nothing is started that the client has completed. -/
theorem Ledger.startsFresh (h : Ledger token w) (event : Event) : StartsFresh w event := by
  cases event with
  | start now =>
      intro _ stored hdue hdone
      rcases h.due hdue with ⟨row, hrow, hopen⟩
      rw [(h.done _ hdone).2 row hrow] at hopen
      cases hopen
  | _ => trivial

/-- What the client does leaves every open command open. -/
theorem Accounted.keep (h : Accounted token w) {client : Contents} (hkeeps : Keeps w.client client)
    {execution : Execution} : Accounted token { w with client, execution } := by
  intro id row hrow hclient hne
  rcases h id row hrow hclient hne with hpending | hflying | ⟨stored, hstored, hopen⟩
  · exact .inl hpending
  · exact .inr (.inl hflying)
  · exact .inr (.inr (hkeeps.open_ id stored hstored hopen))

/-- What the server does leaves a command where it is, or completes it. -/
theorem Accounted.advance (h : Accounted token w) (server : Database)
    (hadvance : Server.CommandsAdvance w.server.content server.content) {execution : Execution} :
    Accounted token { w with server, execution } := by
  intro id row' hrow' hclient hne
  cases hold : w.server.content.commands.get? id with
  | none => exact .inl (hadvance.fresh id row' hold hrow').1
  | some row =>
      rcases hadvance.old id row hold with ⟨row'', hrow'', hadvanced⟩
      cases hrow'.symm.trans hrow''
      have hstatus := hadvanced.status.resolve_right hne
      rw [hstatus] at hne ⊢
      exact h id row hold (hadvanced.clientId.symm.trans hclient) hne

/-- What a poll marks is in the answer, if the client is this one. -/
theorem Accounted.poll (hledger : Ledger token w) (h : Accounted token w) (principal : Principal)
    (now : TimestampMs) : Accounted token (step codec token w (.poll principal now)) := by
  simp only [step]
  cases hreply : Server.nextCommand principal now w.server.content with
  | error status => exact h
  | ok r =>
      rcases nextCommand_eq_ok.mp hreply with ⟨-, rfl⟩
      intro id row' hrow' hclient hne
      simp only [Server.get?_markDispatched] at hrow'
      rcases Option.map_eq_some_iff.mp hrow' with ⟨row, hrow, rfl⟩
      by_cases hid : id ∈ (Server.pendingCommands w.server.content principal.clientId).map Prod.fst
      · rw [if_pos hid] at hclient
        rcases List.mem_map.mp hid with ⟨r, hr, rfl⟩
        rcases Server.mem_pendingCommands hr with ⟨hget, howner, -⟩
        cases hrow.symm.trans hget
        have hself : principal.clientId = token.clientId := howner.symm.trans hclient
        right
        left
        simp only [inFlight, if_pos hself, List.flatMap_append, List.mem_append,
          List.flatMap_singleton]
        exact .inr (by rw [idsOf_pendingCommands hledger]; exact hid)
      · rw [if_neg hid] at hclient hne ⊢
        rcases h id row hrow hclient hne with hpending | hflying | hstored
        · exact .inl hpending
        · right
          left
          simp only [inFlight]
          split
          · rw [List.flatMap_append, List.mem_append]
            exact .inl hflying
          · exact hflying
        · exact .inr (.inr hstored)

/-- The loss of an answer leaves the other answers, and its own commands are completed. -/
theorem Accounted.lose (h : Accounted token w) (hspares : Spares w (.lose i)) :
    Accounted token (step codec token w (.lose i)) := by
  intro id row hrow hclient hne
  rcases h id row hrow hclient hne with hpending | hflying | hstored
  · exact .inl hpending
  · right
    left
    cases hanswer : w.responses[i]? with
    | none =>
        have hsame : w.responses.eraseIdx i = w.responses :=
          List.eraseIdx_of_length_le (List.getElem?_eq_none_iff.mp hanswer)
        simpa only [step, inFlight, hsame] using hflying
    | some answer =>
        rcases List.mem_append.mp ((perm_inFlight hanswer).mem_iff.mp hflying) with hid | hid
        · exact absurd (hspares answer hanswer id hid row hrow) hne
        · exact hid
  · exact .inr (.inr hstored)

/-- The commands of an answer that arrives are saved. -/
theorem Accounted.deliver (hledger : Ledger token w) (h : Accounted token w)
    (hanswer : w.responses[i]? = some answer) (nowMs : ℤ) :
    Accounted token { w with
      responses := w.responses.eraseIdx i
      client := saveCommands w.client answer.commands nowMs } := by
  intro id row hrow hclient hne
  have hsaved := get?_saveCommands (c := w.client) answer.commands nowMs id
  rcases h id row hrow hclient hne with hpending | hflying | ⟨stored, hstored, hopen⟩
  · exact .inl hpending
  · rcases List.mem_append.mp ((perm_inFlight hanswer).mem_iff.mp hflying) with hid | hid
    · right
      right
      rcases hsaved.2 (hledger.flying id hflying).2.1 with ⟨hnot, -⟩ | ⟨-, stored, hget, hst, -⟩
      · exact absurd hid hnot
      · exact ⟨stored, hget, by rw [hst]; rfl⟩
    · exact .inr (.inl hid)
  · exact .inr (.inr ⟨stored, hsaved.1 stored hstored, hopen⟩)

/-- What the client completes is completed at the server. -/
theorem Accounted.complete (hledger : Ledger token w) (h : Accounted token w) {commandId : Uuid}
    {result : ContentUploadResult} (hreported : w.execution = .reported commandId result)
    (nowMs : ℤ) :
    Accounted token { w with
      client := completeCommand w.client commandId result false nowMs
      execution := .idle
      completed := commandId :: w.completed } := by
  intro id row hrow hclient hne
  rcases h id row hrow hclient hne with hpending | hflying | ⟨stored, hstored, hopen⟩
  · exact .inl hpending
  · exact .inr (.inl hflying)
  · have hother : id ≠ commandId := by
      rintro rfl
      rcases (hledger.reported id result hreported).1 with ⟨row', hrow', hcompleted⟩
      cases hrow.symm.trans hrow'
      exact hne hcompleted
    exact .inr (.inr ⟨stored, by rw [get?_completeCommand, if_neg hother, hstored], hopen⟩)

/-- Every event but a loss leaves the commands accounted for. -/
theorem accounted_step (codec : Codec) (hledger : Ledger token w) (h : Accounted token w)
    {event : Event} (hspares : Spares w event) : Accounted token (step codec token w event) := by
  cases event with
  | server event => exact h.advance _ (Server.advanced_step codec w.server event)
  | poll principal now => exact h.poll hledger principal now
  | lose i => exact h.lose hspares
  | deliver i now =>
      simp only [step]
      split
      · exact h
      · rename_i answer hanswer
        exact h.deliver hledger hanswer (ts now)
  | start now =>
      simp only [step]
      split
      · rename_i stored hidle hdue
        exact h.keep (hledger.start hdue).1
      · exact h
  | report now =>
      simp only [step]
      split
      · rename_i commandId result hexecution
        cases hreply : Server.uploadResult token commandId result now w.server.content with
        | error status => exact h
        | ok t =>
            rcases Server.uploadResult_eq_ok.mp hreply with ⟨-, request, -, -, rfl⟩
            exact h.advance { w.server with
              content := w.server.content.completeRequestAndCommand result.requestId
                (Server.requestStatusOf result.status) now }
              (Server.commandsAdvance_complete ..)
      · exact h
  | complete now =>
      simp only [step]
      split
      · rename_i commandId result hexecution
        exact h.complete hledger hexecution (ts now)
      · exact h
  | fail error now =>
      simp only [step]
      split
      · rename_i commandId result hexecution
        rcases hledger.uploading commandId result hexecution with ⟨stored, hstored, hopen⟩
        refine h.keep (keeps_failCommand fun row hrow => ?_)
        cases hstored.symm.trans hrow
        exact hopen
      · exact h
  | abandon => exact h.keep (.of_eq rfl)
  | store input =>
      simp only [step]
      cases hstored : persistContent codec w.client input with
      | none => exact h
      | some r => exact h.keep (keeps_persistContent hstored)
  | cleanup now => exact h.keep (keeps_cleanup now)

/-- A lost answer loses every command of it that is not completed. -/
theorem spares_of_accounted (codec : Codec) (hledger : Ledger token w) {event : Event}
    (h : Accounted token (step codec token w event)) : Spares w event := by
  cases event with
  | lose i =>
      intro answer hanswer id hid row hrow
      have hperm := perm_inFlight hanswer
      have hflying := hperm.mem_iff.mpr (List.mem_append_left _ hid)
      rcases hledger.flying id hflying with ⟨⟨row', hrow', hclient, hne⟩, hnone, -⟩
      cases hrow.symm.trans hrow'
      by_contra hopen
      rcases h id row hrow hclient hopen with hpending | hrest | ⟨stored, hstored, -⟩
      · exact hne hpending
      · have hnodup := hperm.nodup_iff.mp hledger.once
        exact (List.nodup_append.mp hnodup).2.2 id hid id hrest rfl
      · rw [show (step codec token w (.lose i)).client = w.client from rfl, hnone] at hstored
        cases hstored
  | _ => trivial

end Invariant

/-! ## Runs -/

/-- No run starts an upload for a command that the client has completed, and exactly the runs that
lose no answer with an uncompleted command keep every command accounted for. -/
theorem accounted_run_iff (codec : Codec) (token : Principal) {w : World} (h : Begins token w)
    (events : List Event) :
    Run.Each (step codec token) StartsFresh w events ∧
      (Run.Each (step codec token) Spares w events ↔
        Run.Each (step codec token) (fun w event => Accounted token (step codec token w event)) w
          events) := by
  constructor
  · rw [Run.each_iff_forall_prefix]
    intro done event _
    have hledger := Run.invariant (I := Ledger token)
      (fun _ event hw => ledger_step codec hw event) h.ledger done
    exact hledger.startsFresh event
  · apply Run.each_iff_of_invariant (I := fun w => Ledger token w ∧ Accounted token w)
    · intro w event ⟨hledger, haccounted⟩ hspares
      exact ⟨ledger_step codec hledger event, accounted_step codec hledger haccounted hspares⟩
    · intro w event ⟨hledger, haccounted⟩
      exact ⟨accounted_step codec hledger haccounted, spares_of_accounted codec hledger⟩
    · exact ⟨h.ledger, h.accounted⟩

/-! ## A lost answer -/

/-- One command is pending, and the client has nothing yet. -/
def oneCommand : World := ⟨Server.bothPartsDatabase, [], ⟨.empty, .empty, .empty⟩, .idle, []⟩

theorem begins_oneCommand : Begins ⟨"a", .client⟩ oneCommand where
  keyed := by
    intro commandId row hrow
    simp only [oneCommand, Server.bothPartsDatabase, Server.withContentRequest,
      Table.get?_put] at hrow
    split at hrow
    · rename_i hid
      cases hrow
      exact hid.symm
    · cases hrow
  undispatched := by
    intro commandId row hrow _ _
    simp only [oneCommand, Server.bothPartsDatabase, Server.withContentRequest,
      Table.get?_put] at hrow
    split at hrow
    · cases hrow
      rfl
    · cases hrow
  responses := rfl
  commands := rfl
  execution := rfl
  completed := rfl

/-- The command is sent, executed and reported; then an answer is lost that has none. -/
def executed : List Event :=
  [.poll ⟨"a", .client⟩ 40, .deliver 0 41000000, .start 42000000, .report 43, .complete 44000000,
    .poll ⟨"a", .client⟩ 60, .lose 0]

theorem spares_executed :
    Run.Each (step (.numbered []) ⟨"a", .client⟩) Spares oneCommand executed := by
  refine ⟨trivial, trivial, trivial, trivial, trivial, trivial, ?_, trivial⟩
  intro answer hanswer id hid
  have hnone : (Run.run (step (.numbered []) ⟨"a", .client⟩) oneCommand
      (executed.take 6)).responses[0]?.map idsOf = some [] := by decide +kernel
  rw [show (Run.run (step (.numbered []) ⟨"a", .client⟩) oneCommand
    (executed.take 6)).responses[0]? = some answer from hanswer, Option.map_some,
    Option.some.injEq] at hnone
  rw [hnone] at hid
  cases hid

/-- The run has executed the command when the answer is lost. -/
theorem accounted_run_iff_oneCommand :
    (Run.run (step (.numbered []) ⟨"a", .client⟩) oneCommand executed).completed = [.v7 0] ∧
      Run.Each (step (.numbered []) ⟨"a", .client⟩) StartsFresh oneCommand executed ∧
      Run.Each (step (.numbered []) ⟨"a", .client⟩) (fun w event =>
        Accounted ⟨"a", .client⟩ (step (.numbered []) ⟨"a", .client⟩ w event)) oneCommand
          executed := by
  have haccounted := accounted_run_iff (.numbered []) ⟨"a", .client⟩ begins_oneCommand executed
  exact ⟨by decide +kernel, haccounted.1, haccounted.2.mp spares_executed⟩

/-- The command is sent in answer to a poll, and the answer does not arrive. -/
def lostAnswer : List Event := [.poll ⟨"a", .client⟩ 40, .lose 0]

/-- The command is dispatched, and nobody will send it again. -/
theorem not_accounted_lostAnswer :
    ¬ Run.Each (step (.numbered []) ⟨"a", .client⟩) (fun w event =>
      Accounted ⟨"a", .client⟩ (step (.numbered []) ⟨"a", .client⟩ w event)) oneCommand
        lostAnswer := by
  intro h
  have hlast := (Run.each_iff_forall_prefix.mp h) (lostAnswer.take 1) lostAnswer[1] ⟨[], rfl⟩
  rcases hlast (.v7 0)
    { Server.commandRowOf ⟨.v7 0, Server.bothParts⟩ with
      status := .dispatched, deliveredAtMs := some 40 }
    (by decide +kernel) rfl (by decide) with hpending | hflying | ⟨stored, hstored, -⟩
  · cases hpending
  · revert hflying
    decide +kernel
  · have hnone : (Run.run (step (.numbered []) ⟨"a", .client⟩) oneCommand
        lostAnswer).client.commands.get? (.v7 0) = none := rfl
    cases hnone.symm.trans hstored

end Codexwatch.System.Commands
