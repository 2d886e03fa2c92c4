import Codexwatch.Client.Pinning
import Codexwatch.Server.Isolation
import Codexwatch.System.Transfer
import Codexwatch.System.Uploading

/-!
# What the client tells

When the upload loop tells the server that content is stored, the server has the content of
every part that the request lists, whatever went on in between: other requests, of this client
and of others, polls, answers that were lost, content that was stored and cleaned up, and ends
of the process. Two things have to stay away from the request in hand. An expired request is
answered like one whose post was accepted, and the content of an evicted one is gone.

What the server has of an upload grows with every stage of the loop, and what it has stays.

## Main definitions

* `Known` — every command that is under way or saved is one that the server sent.
* `Landed` — what the server has at a stage.
* `Undisturbed` — the request in hand neither expires nor is evicted.

## Main results

* `telling_run` — what the client says is so.
-/
namespace Codexwatch.System.Uploading

open Protocol Relational Client Commands Check
open Server (Principal Database ContentTables CommandPollResponse StatusCode contentReply)
open Server.ContentTables (StillHas Gone)

/-! ## What the client knows -/

/-- No file is added and no command, and the commands stay as they were sent. -/
structure Narrows (c c' : Contents) : Prop where
  commands : ∀ id row', c'.commands.get? id = some row' →
    ∃ row, c.commands.get? id = some row ∧ row'.payloadJson = row.payloadJson
  files : ∀ sha file, c'.files.get? sha = some file → c.files.get? sha = some file

section Client
variable {codec : Codec} {c c' : Contents}

theorem Narrows.of_eq (hcommands : c'.commands = c.commands) (hfiles : c'.files = c.files) :
    Narrows c c' where
  commands id row' hrow' := ⟨row', by rw [← hcommands, hrow'], rfl⟩
  files sha file hfile := by rw [← hfiles, hfile]

theorem narrows_modify {commandId : Uuid} {f : CommandRow → CommandRow}
    (hcommands : c'.commands = c.commands.modify commandId f) (hfiles : c'.files = c.files)
    (hf : ∀ row, (f row).payloadJson = row.payloadJson) : Narrows c c' where
  commands id row' hrow' := by
    rw [hcommands, Table.get?_modify] at hrow'
    split at hrow'
    · rcases Option.map_eq_some_iff.mp hrow' with ⟨row, hrow, rfl⟩
      exact ⟨row, hrow, hf row⟩
    · exact ⟨row', hrow', rfl⟩
  files sha file hfile := by rw [← hfiles, hfile]

theorem narrows_prepareUpload (c : Contents) (command : ContentRequestCommand) (nowMs : ℤ) :
    Narrows c (prepareUpload c command nowMs).2 := by
  rw [prepareUpload]
  split
  · exact .of_eq rfl rfl
  · split
    · exact .of_eq rfl rfl
    · exact narrows_modify rfl rfl fun _ => rfl

theorem narrows_failCommand (codec : Codec) (c : Contents) (commandId : Uuid) (error : String)
    (now : OffsetDateTime) : Narrows c (failCommand codec c commandId error true now) := by
  rw [failCommand]
  split
  · exact .of_eq rfl rfl
  · exact narrows_modify rfl rfl fun _ => rfl

theorem narrows_completeCommand (c : Contents) (commandId : Uuid) (result : ContentUploadResult)
    (nowMs : ℤ) : Narrows c (completeCommand c commandId result false nowMs) :=
  narrows_modify rfl rfl fun _ => rfl

theorem narrows_cleanup (c : Contents) (now : OffsetDateTime) : Narrows c (cleanup c now) where
  commands id row' hrow' := by
    rcases (keeps_cleanup now).known id row' hrow' with ⟨row, hrow, hpayload, -⟩
    exact ⟨row, hrow, hpayload⟩
  files sha file hfile := by
    rw [get?_files_cleanup] at hfile
    split at hfile
    · cases hfile
    · exact hfile

/-- What is saved was there, or comes with the answer. -/
theorem payload_saveCommands {commands : List ContentRequestCommand} {nowMs : ℤ} {id : Uuid}
    {row : CommandRow} (h : (saveCommands c commands nowMs).commands.get? id = some row) :
    c.commands.get? id = some row ∨ row.payloadJson ∈ commands := by
  simp only [saveCommands] at h
  generalize c.commands = table at h ⊢
  induction commands generalizing table with
  | nil => exact .inl h
  | cons command commands ih =>
      rw [List.foldl_cons] at h
      rcases ih _ h with hold | hnew
      · rw [Table.get?_insertIgnore] at hold
        split at hold
        · rename_i hid
          cases hknown : table.get? command.commandId with
          | none =>
              rw [hknown, Option.getD_none, Option.some.injEq] at hold
              exact .inr (by simp [← hold])
          | some old =>
              rw [hknown, Option.getD_some] at hold
              exact .inl (by rw [hid, hknown, hold])
        · exact .inl hold
      · exact .inr (List.mem_cons_of_mem _ hnew)

end Client

/-! ## What is known of the commands -/

/-- The server has the command, as it is. -/
def Issued (t : ContentTables) (command : ContentRequestCommand) : Prop :=
  ∃ row, t.commands.get? command.commandId = some row ∧ row.payloadJson = command

/-- Tables in order, and commands that are the server's. -/
structure Known (codec : Codec) (w : Commands.World) : Prop where
  tidy : w.server.content.Tidy codec
  paired : w.server.content.Paired
  answered : ∀ answer ∈ w.responses, ∀ command ∈ answer.commands, Issued w.server.content command
  saved : ∀ id row, w.client.commands.get? id = some row →
    Issued w.server.content row.payloadJson
  filed : ∀ sha file, w.client.files.get? sha = some file → file ≠ []

section Known
variable {codec : Codec} {token : Principal} {w : Commands.World} {t t' : ContentTables}

theorem Issued.move {command : ContentRequestCommand} (h : Issued t command)
    (hmoves : Moves t t') : Issued t' command := by
  rcases h with ⟨row, hrow, hpayload⟩
  rcases hmoves.old _ row hrow with ⟨row', hrow', -, hsame, -⟩
  exact ⟨row', hrow', hsame.trans hpayload⟩

theorem issued_of_row (h : t.Paired) {id : Uuid} {row : Server.CommandRow}
    (hrow : t.commands.get? id = some row) : Issued t row.payloadJson := by
  rcases h.mirrored id row hrow with ⟨request, -, hmirrors⟩
  have hid : row.payloadJson.commandId = id := by rw [hmirrors.payload]
  exact ⟨row, hid ▸ hrow, rfl⟩

/-- What the server does on its own. -/
theorem Known.move (h : Known codec w) {server : Database}
    (hmoves : Moves w.server.content server.content) (htidy : server.content.Tidy codec)
    (hpaired : server.content.Paired) : Known codec { w with server } where
  tidy := htidy
  paired := hpaired
  answered answer hanswer command hcommand :=
    (h.answered answer hanswer command hcommand).move hmoves
  saved id row hrow := (h.saved id row hrow).move hmoves
  filed := h.filed

theorem Known.request (h : Known codec w) (event : Server.Event) :
    Known codec { w with server := Server.step codec w.server event } :=
  h.move (moves_of_advance (Server.advanced_step codec w.server event))
    (Server.tidy_step h.tidy event) (Server.paired_step h.paired event)

/-- What the client does on its own. -/
theorem Known.narrow (h : Known codec w) {client : Contents} (hnarrows : Narrows w.client client)
    (execution : Execution) (completed : List Uuid) :
    Known codec { w with client, execution, completed } where
  tidy := h.tidy
  paired := h.paired
  answered := h.answered
  saved id row hrow := by
    rcases hnarrows.commands id row hrow with ⟨old, hold, hpayload⟩
    rw [hpayload]
    exact h.saved id old hold
  filed sha file hfile := h.filed sha file (hnarrows.files sha file hfile)

/-- A poll marks commands, and answers with commands of the server. -/
theorem Known.dispatch (h : Known codec w) (clientId : String) (now : TimestampMs) :
    Known codec { w with
      server := { w.server with
        content := Server.markDispatched w.server.content
          ((Server.pendingCommands w.server.content clientId).map Prod.fst) now } } ∧
      ∀ r ∈ Server.pendingCommands w.server.content clientId,
        Issued (Server.markDispatched w.server.content
          ((Server.pendingCommands w.server.content clientId).map Prod.fst) now)
            r.2.payloadJson := by
  have hmoves := moves_markDispatched (t := w.server.content) clientId now
  constructor
  · refine h.move hmoves (h.tidy.of_eq rfl rfl rfl rfl) (h.paired.markDispatched ?_)
    intro id hid command hcommand
    rcases List.mem_map.mp hid with ⟨r, hr, rfl⟩
    rcases Server.mem_pendingCommands hr with ⟨hrow, -, hpending⟩
    cases hcommand.symm.trans hrow
    exact hpending
  · intro r hr
    exact (issued_of_row h.paired (Server.mem_pendingCommands hr).1).move hmoves

theorem Known.answers (h : Known codec w) {responses : List CommandPollResponse}
    (hanswered : ∀ answer ∈ responses, ∀ command ∈ answer.commands,
      Issued w.server.content command) : Known codec { w with responses } :=
  ⟨h.tidy, h.paired, hanswered, h.saved, h.filed⟩

theorem Known.lose (h : Known codec w) (i : ℕ) :
    Known codec { w with responses := w.responses.eraseIdx i } :=
  h.answers fun answer hanswer => h.answered answer ((List.eraseIdx_sublist _ _).subset hanswer)

/-- The commands of an answer are the server's. -/
theorem Known.save (h : Known codec w) {commands : List ContentRequestCommand}
    (hcommands : ∀ command ∈ commands, Issued w.server.content command) (nowMs : ℤ) :
    Known codec { w with client := saveCommands w.client commands nowMs } where
  tidy := h.tidy
  paired := h.paired
  answered := h.answered
  saved id row hrow := by
    rcases payload_saveCommands hrow with hold | hnew
    · exact h.saved id row hold
    · exact hcommands _ hnew
  filed := h.filed

theorem Known.store (hcodec : ∀ body, codec.encodeAll body ≠ []) (h : Known codec w)
    {input : StoredContentInput} {stored : StoredBlob} {client : Contents}
    (hpersist : persistContent codec w.client input = some (stored, client)) :
    Known codec { w with client } := by
  rcases persistContent_eq_some.mp hpersist with ⟨-, rfl, rfl⟩
  refine ⟨h.tidy, h.paired, h.answered, h.saved, fun sha file hfile => ?_⟩
  rw [Table.get?_insertIgnore] at hfile
  split at hfile
  · cases hold : w.client.files.get? (codec.sha256Hex input.body) with
    | none =>
        rw [hold, Option.getD_none, Option.some.injEq] at hfile
        exact hfile ▸ hcodec input.body
    | some old =>
        rw [hold, Option.getD_some, Option.some.injEq] at hfile
        exact hfile ▸ h.filed _ old hold
  · exact h.filed sha file hfile

theorem known_step (hcodec : ∀ body, codec.encodeAll body ≠ []) (h : Known codec w)
    (e : Commands.Event) : Known codec (Commands.step codec token w e) := by
  cases e with
  | server event => exact h.request event
  | poll principal now =>
      rw [Commands.step]
      split
      · exact h
      · rename_i response content hreply
        rcases nextCommand_eq_ok.mp hreply with ⟨-, heq⟩
        cases heq
        rcases h.dispatch principal.clientId now with ⟨hmoved, hissued⟩
        refine hmoved.answers fun answer hanswer => ?_
        split at hanswer
        · rcases List.mem_append.mp hanswer with hold | hnew
          · exact hmoved.answered answer hold
          · cases List.mem_singleton.mp hnew
            intro command hcommand
            rcases List.mem_map.mp hcommand with ⟨r, hr, rfl⟩
            exact hissued r hr
        · exact hmoved.answered answer hanswer
  | lose i => exact h.lose i
  | deliver i now =>
      rw [Commands.step]
      split
      · exact h
      · rename_i answer hanswer
        exact (h.lose i).save (h.answered answer (List.mem_of_getElem? hanswer)) (ts now)
  | start now =>
      rw [Commands.step]
      split
      · exact h.narrow (narrows_prepareUpload ..) _ w.completed
      · exact h
  | report now =>
      rw [Commands.step]
      split
      · rename_i commandId result hexecution
        split
        · exact h
        · rename_i content hreply
          have hrequest := h.request (.uploadResult token commandId result now)
          rw [Server.step, hreply] at hrequest
          exact hrequest.narrow (.of_eq rfl rfl) _ w.completed
      · exact h
  | complete now =>
      rw [Commands.step]
      split
      · exact h.narrow (narrows_completeCommand ..) _ _
      · exact h
  | fail error now =>
      rw [Commands.step]
      split
      · exact h.narrow (narrows_failCommand ..) _ w.completed
      · exact h
  | abandon => exact h.narrow (.of_eq rfl rfl) _ w.completed
  | store input =>
      rw [Commands.step]
      split
      · exact h
      · rename_i stored client hpersist
        exact h.store hcodec hpersist
  | cleanup now => exact h.narrow (narrows_cleanup w.client now) w.execution w.completed

end Known

/-! ## What the server has of an upload -/

/-- The upload of a command has a manifest for each part. -/
structure Prepared (command : ContentRequestCommand) (work : UploadWork) : Prop where
  commandId : work.commandId = command.commandId
  requestId : work.requestId = command.request.requestId
  parts : ∀ part ∈ command.request.parts, ∃ m ∈ work.manifests, m.part = part
  own : ∀ m ∈ work.manifests, m.requestId = work.requestId

/-- The upload is that of a command of the server. -/
def Ours (t : ContentTables) (work : UploadWork) : Prop :=
  ∃ command, Issued t command ∧ Prepared command work

/-- The manifests are announced, and what is not left of them is sent. -/
structure Uploaded (t : ContentTables) (work : UploadWork) (left : List ContentObjectManifest) :
    Prop where
  announced : ∀ m ∈ work.manifests, t.loadManifest m.requestId m.objectSha256 = some m
  subset : left ⊆ work.manifests
  sent : ∀ m ∈ work.manifests, m ∈ left ∨ t.HasChunks m.requestId m.objectSha256 m.chunkCount

/-- The chunks of a file are sent, but for those that are left. -/
def Partway (codec : Codec) (t : ContentTables) (m : ContentObjectManifest)
    (left : List ContentUploadChunk) : Prop :=
  ∃ file posted, file ≠ [] ∧
    posted ++ left = (List.range (Chunks.divCeil file.length MAX_CONTENT_CHUNK_BYTES)).map
      (BlobStore.chunkOf codec file m.objectSha256 m.requestId) ∧
    ∀ chunk ∈ posted, chunk.chunkCount = m.chunkCount ∧
      (t.contentChunks.get? (m.requestId, m.objectSha256, chunk.chunkIndex)).isSome

/-- What the server has at a stage of the loop. -/
def Landed (codec : Codec) (t : ContentTables) : Stage → Prop
  | .idle | .completing _ _ => True
  | .announcing work => Ours t work
  | .loading work left => Ours t work ∧ Uploaded t work left
  | .posting work chunks left =>
      Ours t work ∧ ∃ m, Uploaded t work (m :: left) ∧ Partway codec t m chunks
  | .telling commandId result => result.status = .stored →
      ∃ command, Issued t command ∧ command.commandId = commandId ∧
        command.request.requestId = result.requestId ∧
          t.Arrived result.requestId command.request.parts

/-- The upload whose content is sent. -/
def Stage.work : Stage → Option UploadWork
  | .announcing work | .loading work _ | .posting work _ _ => some work
  | .idle | .telling _ _ | .completing _ _ => none

/-- The request in hand. -/
def Stage.request : Stage → Option Uuid
  | .announcing work | .loading work _ | .posting work _ _ => some work.requestId
  | .telling _ result => if result.status = .stored then some result.requestId else none
  | .idle | .completing _ _ => none

/-- What the server keeps of commands and contents. -/
structure Advances (t t' : ContentTables) : Prop where
  moves : Moves t t'
  kept : ∀ requestId, StillHas requestId t t' ∨ Gone requestId t'

section Landed
variable {codec : Codec} {t t' : ContentTables} {work : UploadWork} {m : ContentObjectManifest}
  {left : List ContentObjectManifest} {chunks : List ContentUploadChunk}

theorem prepared_of_ready {c c' : Contents} {command : ContentRequestCommand} {nowMs : ℤ}
    (h : prepareUpload c command nowMs = (.ready work, c')) : Prepared command work := by
  rw [prepareUpload] at h
  split at h
  · cases h
  · split at h
    · cases h
    · rename_i manifests hmanifests
      cases (Prod.mk.inj h).1
      refine ⟨rfl, rfl, fun part hpart => ?_, fun m hm => ?_⟩
      · rcases exists_mem_of_mapM hmanifests hpart with ⟨m, hm, hprepared⟩
        simp only [prepareManifest, bind_eq_ok, exists_unit_and, required_eq_ok,
          pure_eq_ok] at hprepared
        rcases hprepared with ⟨r, -, -, rfl⟩
        exact ⟨_, hm, rfl⟩
      · rcases exists_of_mem_mapM hmanifests hm with ⟨part, -, hprepared⟩
        simp only [prepareManifest, bind_eq_ok, exists_unit_and, required_eq_ok,
          pure_eq_ok] at hprepared
        rcases hprepared with ⟨r, -, -, rfl⟩
        rfl

/-! ### It stays -/

theorem Ours.move (h : Ours t work) (hmoves : Moves t t') : Ours t' work := by
  rcases h with ⟨command, hissued, hprepared⟩
  exact ⟨command, hissued.move hmoves, hprepared⟩

theorem Uploaded.still (h : Uploaded t work left) (hwork : Ours t work)
    (hstill : StillHas work.requestId t t') : Uploaded t' work left := by
  rcases hwork with ⟨command, -, hprepared⟩
  refine ⟨fun m hm => ?_, h.subset, fun m hm => ?_⟩
  · rcases Option.map_eq_some_iff.mp (h.announced m hm) with ⟨row, hrow, hsame⟩
    rw [hprepared.own m hm] at hrow ⊢
    rw [ContentTables.loadManifest, hstill.manifests _ row hrow, Option.map_some, hsame]
  · refine (h.sent m hm).imp id fun hchunks => ?_
    rw [hprepared.own m hm] at hchunks ⊢
    exact hstill.hasChunks hchunks

theorem Partway.still (h : Partway codec t m chunks) (hstill : StillHas m.requestId t t') :
    Partway codec t' m chunks := by
  rcases h with ⟨file, posted, hfile, hall, hposted⟩
  exact ⟨file, posted, hfile, hall, fun chunk hchunk =>
    ⟨(hposted chunk hchunk).1, hstill.chunks _ _ (hposted chunk hchunk).2⟩⟩

theorem Landed.still {stage : Stage} (h : Landed codec t stage) (hmoves : Moves t t')
    (hstill : ∀ requestId, stage.request = some requestId → StillHas requestId t t') :
    Landed codec t' stage := by
  cases stage with
  | idle => trivial
  | announcing work => exact h.move hmoves
  | loading work left => exact ⟨h.1.move hmoves, h.2.still h.1 (hstill _ rfl)⟩
  | posting work chunks left =>
      rcases h with ⟨hwork, m, huploaded, hpartway⟩
      have hown : m.requestId = work.requestId := by
        rcases hwork with ⟨command, -, hprepared⟩
        exact hprepared.own m (huploaded.subset (by simp))
      exact ⟨hwork.move hmoves, m, huploaded.still hwork (hstill _ rfl),
        hpartway.still (hown ▸ hstill _ rfl)⟩
  | telling commandId result =>
      intro hstored
      rcases h hstored with ⟨command, hissued, hid, hrequest, harrived⟩
      have hstill' := hstill result.requestId (by rw [Stage.request, if_pos hstored])
      exact ⟨command, hissued.move hmoves, hid, hrequest, hstill'.arrived harrived⟩
  | completing commandId result => trivial

/-! ### It grows -/

/-- A file that is not empty has chunks, and their number is the one that they say. -/
theorem Partway.hasChunks (h : Partway codec t m []) :
    t.HasChunks m.requestId m.objectSha256 m.chunkCount := by
  rcases h with ⟨file, posted, hfile, hall, hposted⟩
  rw [List.append_nil] at hall
  have hpositive : Chunks.divCeil file.length MAX_CONTENT_CHUNK_BYTES ≠ 0 := by
    rw [Ne, Chunks.divCeil_eq_zero_iff (by decide)]
    simpa using hfile
  have hchunk (i : ℕ) (hi : i < Chunks.divCeil file.length MAX_CONTENT_CHUNK_BYTES) :
      BlobStore.chunkOf codec file m.objectSha256 m.requestId i ∈ posted := by
    rw [hall]
    exact List.mem_map_of_mem (List.mem_range.mpr hi)
  have hcount : chunkCount file.length = m.chunkCount :=
    (hposted _ (hchunk 0 (Nat.pos_of_ne_zero hpositive))).1
  have hmod : m.chunkCount = Chunks.divCeil file.length MAX_CONTENT_CHUNK_BYTES % 2 ^ 32 := by
    rw [← hcount, chunkCount, max_eq_left (Nat.one_le_iff_ne_zero.mpr hpositive)]
  intro i hi
  rw [hmod] at hi
  have hlt := hi.trans_le (Nat.mod_le _ _)
  have hindex : i % 2 ^ 32 = i := Nat.mod_eq_of_lt (hi.trans (Nat.mod_lt _ (by decide)))
  have hsome := (hposted _ (hchunk i hlt)).2
  rwa [BlobStore.chunkOf, hindex] at hsome

theorem Uploaded.next (h : Uploaded t work (m :: left)) (hpartway : Partway codec t m []) :
    Uploaded t work left where
  announced := h.announced
  subset _ hm' := h.subset (List.mem_cons_of_mem _ hm')
  sent m' hm' := by
    rcases h.sent m' hm' with hleft | hsent
    · rcases List.mem_cons.mp hleft with rfl | hleft
      · exact .inr hpartway.hasChunks
      · exact .inl hleft
    · exact .inr hsent

/-- Nothing is left: the content of every part has come. -/
theorem landed_stored (hwork : Ours t work) (h : Uploaded t work []) :
    Landed codec t (.telling work.commandId (storedResult work)) := by
  intro _
  rcases hwork with ⟨command, hissued, hprepared⟩
  refine ⟨command, hissued, hprepared.commandId.symm, hprepared.requestId.symm, ?_⟩
  intro part hpart
  rcases hprepared.parts part hpart with ⟨m, hm, hnames⟩
  rcases Option.map_eq_some_iff.mp (h.announced m hm) with ⟨row, hrow, hsame⟩
  have hchunks := (h.sent m hm).resolve_left (by simp)
  rw [hprepared.own m hm] at hrow hchunks
  exact ⟨m.objectSha256, row, hrow, by rw [hsame, hnames], by rwa [hsame]⟩

theorem landed_start {c : Contents} {command : ContentRequestCommand} {nowMs : ℤ}
    (hissued : Issued t command) :
    Landed codec t (stageOf (prepareUpload c command nowMs).1) := by
  rcases h : prepareUpload c command nowMs with ⟨preparation, c'⟩
  cases preparation with
  | ready work => exact ⟨command, hissued, prepared_of_ready h⟩
  | expired commandId result =>
      intro hstored
      rw [prepareUpload] at h
      split at h
      · cases h
        cases hstored
      · split at h
        · cases h
          cases hstored
        · cases h

/-- A file is sent from its first chunk on. -/
theorem landed_load {files : BlobStore} (hfiled : ∀ sha file, files.get? sha = some file → file ≠ [])
    (h : Landed codec t (.loading work (m :: left)))
    (hchunks : files.loadChunks codec m.objectSha256 m.requestId = some chunks) :
    Landed codec t (.posting work chunks left) := by
  rcases h with ⟨hwork, huploaded⟩
  simp only [BlobStore.loadChunks, Option.bind_eq_bind, Option.bind_eq_some_iff, Option.pure_def,
    Option.some.injEq] at hchunks
  rcases hchunks with ⟨file, hfile, rfl⟩
  exact ⟨hwork, m, huploaded, file, [], hfiled _ file hfile, List.nil_append _, by simp⟩

/-! ### What an answer says -/

section Answers
variable {principal : Principal} {commandId : Uuid} {now : TimestampMs}

/-- Manifests are accepted as they are, if the request is not expired. -/
theorem announced_of_reply {manifests : List ContentObjectManifest}
    (h : Server.uploadManifests principal commandId manifests now t = .ok t')
    (hunexpired : ∀ request, t.loadCommandRequest commandId principal.clientId = some request →
      request.expiredAt now = false) :
    ∀ m ∈ manifests, t'.loadManifest m.requestId m.objectSha256 = some m := by
  rcases Server.uploadManifests_eq_ok.mp h with
    ⟨request, haccepts, rfl⟩ | ⟨request, -, -, hload, hexpired, -⟩
  · exact fun m hm =>
      ContentTables.loadManifest_insertManifests haccepts.fit request.clientId now hm
  · rw [hunexpired request hload] at hexpired
    cases hexpired

/-- A chunk is kept for its manifest, if the request is not expired. -/
theorem kept_of_reply {chunk : ContentUploadChunk} {r : ContentUploadResult × ContentTables}
    (h : Server.uploadChunk codec principal commandId chunk now t = .ok r)
    (hunexpired : ∀ request, t.loadCommandRequest commandId principal.clientId = some request →
      request.expiredAt now = false) :
    (r.2.contentChunks.get? (chunk.requestId, chunk.objectSha256, chunk.chunkIndex)).isSome ∧
      ∃ m, r.2.loadManifest chunk.requestId chunk.objectSha256 = some m ∧
        m.chunkCount = chunk.chunkCount := by
  rcases Server.uploadChunk_eq_ok.mp h with
    ⟨request, m, haccepts, duplicate, t₁, hupsert, hfinish⟩ | ⟨request, -, -, hload, -, hexpired, -⟩
  · rcases ContentTables.upsertChunkRow_frame hupsert with ⟨hmanifests, -, -, hchunks⟩
    have hkept := (hchunks (chunk.requestId, chunk.objectSha256, chunk.chunkIndex)).mpr (.inl rfl)
    have hstored : t₁.loadManifest chunk.requestId chunk.objectSha256 = some m := by
      rw [ContentTables.loadManifest, hmanifests]
      exact haccepts.requestId ▸ haccepts.stored
    rcases Server.finishObject_eq_ok.mp hfinish with
      ⟨-, rfl⟩ | ⟨-, assembled, uncompressed, -, -, -, -, -, rfl⟩
    · exact ⟨hkept, m, hstored, haccepts.chunkCount⟩
    · rcases ContentTables.storeObject_frame t₁ request m assembled uncompressed now with
        ⟨hsame, hsame'⟩
      refine ⟨by rwa [hsame'], m, ?_, haccepts.chunkCount⟩
      rwa [ContentTables.loadManifest, hsame]
  · rw [hunexpired request hload] at hexpired
    cases hexpired

end Answers

theorem landed_announced (hwork : Ours t work) (hannounced : ∀ m ∈ work.manifests,
      t.loadManifest m.requestId m.objectSha256 = some m) :
    Landed codec t (.loading work work.manifests) :=
  ⟨hwork, hannounced, fun _ hm => hm, fun _ hm => .inl hm⟩

/-- The chunk that is sent goes over to those that were. -/
theorem landed_posted {chunk : ContentUploadChunk}
    (h : Landed codec t (.posting work (chunk :: chunks) left))
    (hkept : (t.contentChunks.get? (chunk.requestId, chunk.objectSha256,
      chunk.chunkIndex)).isSome)
    (hcount : ∃ m, t.loadManifest chunk.requestId chunk.objectSha256 = some m ∧
      m.chunkCount = chunk.chunkCount) :
    Landed codec t (.posting work chunks left) := by
  rcases h with ⟨hwork, m, huploaded, file, posted, hfile, hall, hposted⟩
  have hmem : chunk ∈ posted ++ chunk :: chunks := by simp
  rw [hall] at hmem
  rcases List.mem_map.mp hmem with ⟨i, -, hchunk⟩
  have hrequest : chunk.requestId = m.requestId := by rw [← hchunk]; rfl
  have hsha : chunk.objectSha256 = m.objectSha256 := by rw [← hchunk]; rfl
  rw [hrequest, hsha] at hkept hcount
  have hannounced := huploaded.announced m (huploaded.subset (by simp))
  refine ⟨hwork, m, huploaded, file, posted ++ [chunk], hfile, by simpa using hall, ?_⟩
  intro chunk' hchunk'
  rcases List.mem_append.mp hchunk' with hold | hnew
  · exact hposted chunk' hold
  · cases List.mem_singleton.mp hnew
    rcases hcount with ⟨m', hm', hcount⟩
    cases hannounced.symm.trans hm'
    exact ⟨hcount.symm, hkept⟩

end Landed

/-! ## Every step -/

section Steps
variable {codec : Codec} {token : Principal} {describe : StatusCode → String}

theorem advances_refl (t : ContentTables) : Advances t t where
  moves := ⟨fun _ row hrow => ⟨row, hrow, rfl, rfl, fun _ => .inl rfl⟩,
    fun _ _ hnone hrow => by rw [hnone] at hrow; cases hrow⟩
  kept _ := .inl (.of_eq rfl rfl)

theorem advances_request (codec : Codec) (db : Database) (event : Server.Event) :
    Advances db.content (Server.step codec db event).content where
  moves := moves_of_advance (Server.advanced_step codec db event)
  kept := Server.stillHas_or_gone codec db event

theorem advances_step (w : Commands.World) (e : Commands.Event) :
    Advances w.server.content (Commands.step codec token w e).server.content := by
  cases e with
  | server event => exact advances_request codec w.server event
  | poll principal now =>
      rw [Commands.step]
      split
      · exact advances_refl _
      · rename_i response content hreply
        rcases nextCommand_eq_ok.mp hreply with ⟨-, heq⟩
        cases heq
        exact ⟨moves_markDispatched .., fun _ => .inl (.of_eq rfl rfl)⟩
  | deliver i now =>
      rw [Commands.step]
      split <;> exact advances_refl _
  | start now =>
      rw [Commands.step]
      split <;> exact advances_refl _
  | report now =>
      rw [Commands.step]
      split
      · rename_i commandId result hexecution
        split
        · exact advances_refl _
        · rename_i content hreply
          have hrequest := advances_request codec w.server (.uploadResult token commandId result now)
          rwa [Server.step, hreply] at hrequest
      · exact advances_refl _
  | complete now =>
      rw [Commands.step]
      split <;> exact advances_refl _
  | fail error now =>
      rw [Commands.step]
      split <;> exact advances_refl _
  | store input =>
      rw [Commands.step]
      split <;> exact advances_refl _
  | lose | abandon | cleanup => exact advances_refl _

theorem advances_post (a : Act) (event : Server.Event) (server : Database) :
    Advances server.content (post codec describe a event server).2.content := by
  rw [post]
  cases a.fate with
  | requestLost error => exact advances_refl _
  | replyLost error => exact advances_request codec server event
  | answered => cases contentReply codec server event <;> exact advances_request codec server event

theorem server_afterPost (a : Act) (event : Server.Event) (commandId : Uuid) (next : Stage)
    (d : Daemon) : (afterPost codec describe a event commandId next d).server =
      (post codec describe a event d.server).2 := by
  rw [afterPost]
  rcases post codec describe a event d.server with ⟨answer, server⟩
  cases answer <;> rfl

theorem advances_daemonStep (d : Daemon) (e : DaemonEvent) :
    Advances d.server.content (daemonStep codec token describe d e).server.content := by
  cases e with
  | crash => exact advances_refl _
  | other e =>
      rw [daemonStep]
      split
      · exact advances_refl _
      · exact advances_step d.world e
  | act a =>
      rw [daemonStep, act]
      split
      · split <;> exact advances_refl _
      · rw [server_afterPost]
        exact advances_post a _ d.server
      · exact advances_refl _
      · split <;> exact advances_refl _
      · exact advances_refl _
      · rw [server_afterPost]
        exact advances_post a _ d.server
      · rename_i commandId result hstage
        have hpost : Advances d.server.content (post codec describe a (.uploadResult token commandId
            result a.serverNow) d.server).2.content := advances_post ..
        split
        · rename_i h
          rwa [h] at hpost
        · rename_i h
          rwa [h] at hpost
      · exact advances_refl _

/-- The act of a step that is the loop's own. -/
def DaemonEvent.act? : DaemonEvent → Option Act
  | .act a => some a
  | .crash | .other _ => none

section Undisturbed
variable (codec : Codec) (token : Principal) (describe : StatusCode → String) (d : Daemon)
  (e : DaemonEvent)

/-- The request in hand does not expire while its content is sent, and is not evicted. -/
structure Undisturbed : Prop where
  unexpired : ∀ a ∈ e.act?, ∀ work ∈ d.stage.work,
    ∀ request ∈ d.server.content.loadCommandRequest work.commandId token.clientId,
      request.expiredAt a.serverNow = false
  kept : ∀ requestId ∈ d.stage.request,
    Gone requestId (daemonStep codec token describe d e).server.content →
      Gone requestId d.server.content

instance : Decidable (Undisturbed codec token describe d e) :=
  decidable_of_iff _ ⟨fun h => ⟨h.1, h.2⟩, fun h => And.intro h.unexpired h.kept⟩

end Undisturbed

/-- What is gone was not there. -/
theorem stillHas_of_undisturbed {d : Daemon} {e : DaemonEvent}
    (htidy : d.server.content.Tidy codec) (h : Undisturbed codec token describe d e)
    {requestId : Uuid} (hrequest : d.stage.request = some requestId) :
    StillHas requestId d.server.content
      (daemonStep codec token describe d e).server.content := by
  rcases (advances_daemonStep d e).kept requestId with hstill | hgone
  · exact hstill
  · have hnone := h.kept requestId hrequest hgone
    constructor
    · intro sha row hrow
      rw [hnone] at hrow
      cases hrow
    · intro sha i hchunk
      rcases htidy.attributed.announced requestId sha i hchunk with ⟨row, hrow, -⟩
      rw [hnone] at hrow
      cases hrow

theorem content_of_reply {db : Database} {event : Server.Event} {t : ContentTables}
    (h : contentReply codec db event = .ok t) : (Server.step codec db event).content = t := by
  cases event with
  | ingest => exact Except.ok.inj h
  | createContentRequest | uploadManifests | uploadChunk | uploadResult =>
      rw [contentReply] at h
      rw [Server.step, h, Server.commit]

/-- The loop goes on only after what the server did. -/
theorem landed_afterPost {a : Act} {event : Server.Event} {commandId : Uuid} {next : Stage}
    {d : Daemon} (hnext : ∀ t, contentReply codec d.server event = .ok t →
      (afterPost codec describe a event commandId next d).server =
        Server.step codec d.server event →
      Landed codec (Server.step codec d.server event).content next) :
    Landed codec (afterPost codec describe a event commandId next d).server.content
      (afterPost codec describe a event commandId next d).stage := by
  have hserver : (afterPost codec describe a event commandId next d).server =
      (post codec describe a event d.server).2 := server_afterPost ..
  rcases hpost : post codec describe a event d.server with ⟨answer, server⟩
  rw [hpost] at hserver
  cases answer with
  | ok =>
      rcases post_eq_ok.mp hpost with ⟨⟨t, ht⟩, -, rfl⟩
      have hlanded := hnext t ht hserver
      simpa only [afterPost, hpost] using hlanded
  | error error =>
      simp only [afterPost, hpost]
      trivial

theorem landed_step {d : Daemon} {e : DaemonEvent} (hknown : Known codec d.world)
    (h : Landed codec d.server.content d.stage) (hundisturbed : Undisturbed codec token describe d e) :
    Landed codec (daemonStep codec token describe d e).server.content
      (daemonStep codec token describe d e).stage := by
  -- what is there already stays
  have hstill := h.still (advances_daemonStep d e).moves
    fun _ => stillHas_of_undisturbed hknown.tidy hundisturbed
  cases e with
  | crash => trivial
  | other e =>
      rw [daemonStep] at hstill ⊢
      cases hown : isOwn e with
      | true => exact h
      | false =>
          rw [hown] at hstill
          exact hstill
  | act a =>
      have hunexpired := hundisturbed.unexpired a rfl
      simp only [daemonStep, act] at hstill ⊢
      cases hstage : d.stage with
      | idle =>
          cases hdue : nextDueCommand d.client a.now with
          | none =>
              simp only [hstage]
              trivial
          | some stored =>
              rcases nextDueCommand_eq_some hdue with ⟨id, row, hrow, -, hpayload⟩
              exact landed_start (hpayload ▸ hknown.saved id row hrow)
      | announcing work =>
          have hpass (request : ContentRequest) := hunexpired work (by rw [hstage]; rfl) request
          simp only [hstage] at hstill
          refine landed_afterPost fun t hreply hserver => ?_
          rw [hserver] at hstill
          rw [content_of_reply hreply] at hstill ⊢
          exact landed_announced hstill (announced_of_reply hreply hpass)
      | loading work left =>
          rw [hstage] at h
          cases left with
          | nil => exact landed_stored h.1 h.2
          | cons m left =>
              cases hchunks : d.client.files.loadChunks codec m.objectSha256 m.requestId with
              | none =>
                  simp only [hchunks]
                  trivial
              | some chunks =>
                  simp only [hchunks]
                  exact landed_load hknown.filed h hchunks
      | posting work chunks left =>
          have hpass (request : ContentRequest) := hunexpired work (by rw [hstage]; rfl) request
          cases chunks with
          | nil =>
              rw [hstage] at h
              rcases h with ⟨hwork, m, huploaded, hpartway⟩
              exact ⟨hwork, huploaded.next hpartway⟩
          | cons chunk chunks =>
              simp only [hstage] at hstill
              refine landed_afterPost fun t hreply hserver => ?_
              rw [hserver] at hstill
              rw [content_of_reply hreply] at hstill ⊢
              rcases map_eq_ok.mp hreply with ⟨r, hr, rfl⟩
              rcases kept_of_reply hr hpass with ⟨hkept, hcount⟩
              exact landed_posted hstill hkept hcount
      | telling commandId result =>
          simp only
          split <;> trivial
      | completing commandId result => trivial

theorem known_daemonStep (hcodec : ∀ body, codec.encodeAll body ≠ []) {d : Daemon}
    (h : Known codec d.world) (e : DaemonEvent) :
    Known codec (daemonStep codec token describe d e).world := by
  rw [world_step]
  exact Run.invariant (I := Known codec) (fun _ e hw => known_step hcodec hw e) h _

end Steps

/-! ## Runs -/

/-- No content was asked for yet, and the client is new. -/
structure Starts (d : Daemon) : Prop where
  server : d.server.content = .empty
  responses : d.responses = []
  client : d.client = ⟨.empty, .empty, .empty⟩
  stage : d.stage = .idle

section Runs
variable {codec : Codec} {token : Principal} {describe : StatusCode → String} {d : Daemon}

theorem Starts.known (h : Starts d) : Known codec d.world := by
  have hserver : d.world.server.content = .empty := h.server
  refine ⟨?_, ?_, ?_, ?_, ?_⟩
  · rw [hserver]
    exact Server.Opened.tidy ⟨rfl, rfl, rfl, rfl, by simp [ContentTables.empty]⟩
  · rw [hserver]
    exact ContentTables.paired_empty
  · simp [Daemon.world, h.responses]
  · simp [Daemon.world, h.client]
  · simp [Daemon.world, h.client]

/-- In any run of the loop, with anything in between: when the client tells the server that the
content of a request is stored, the server has the content of every part that the request lists,
if the requests in hand neither expired nor were evicted. -/
theorem telling_run (hcodec : ∀ body, codec.encodeAll body ≠ []) (hstart : Starts d)
    {es : List DaemonEvent}
    (hes : Run.Each (daemonStep codec token describe) (Undisturbed codec token describe) d es)
    {commandId : Uuid} {result : ContentUploadResult}
    (hstage : (Run.run (daemonStep codec token describe) d es).stage = .telling commandId result)
    (hstored : result.status = .stored) :
    ∃ row, (Run.run (daemonStep codec token describe) d es).server.content.contentRequests.get?
        result.requestId = some row ∧
      (Run.run (daemonStep codec token describe) d es).server.content.Covered result.requestId
        row.partsJson := by
  have hrun := Run.invariant_of_each
    (I := fun d : Daemon => Known codec d.world ∧ Landed codec d.server.content d.stage)
    (fun d e h he => ⟨known_daemonStep hcodec h.1 e, landed_step h.1 h.2 he⟩)
    ⟨hstart.known, by rw [hstart.stage]; trivial⟩ hes
  generalize Run.run (daemonStep codec token describe) d es = d' at hstage hrun ⊢
  rcases hrun with ⟨hknown, hlanded⟩
  rw [hstage] at hlanded
  rcases hlanded hstored with ⟨command, ⟨row, hrow, hpayload⟩, -, hrequest, harrived⟩
  rcases hknown.paired.mirrored _ row hrow with ⟨request, hget, hmirrors⟩
  rw [hmirrors.payload] at hpayload
  have hid : row.requestId = result.requestId := by
    rw [← hrequest, ← hpayload]
    rfl
  have hparts : command.request.parts = request.partsJson := by rw [← hpayload]; rfl
  rw [hid] at hget
  rw [hparts] at harrived
  exact ⟨request, hget, hknown.tidy.arrived_iff.mp harrived⟩

end Runs

/-! ## One upload -/

def sampleToken : Principal := ⟨"a", .client⟩

/-- The server has a task of the client, and nobody asked for its content. -/
def sampleDaemon : Daemon := ⟨Server.serverOfA, [], ⟨.empty, .empty, .empty⟩, .idle, []⟩

/-- The response is asked for, and the client stores one and uploads it in one chunk. -/
def sampleEvents : List DaemonEvent :=
  [.other (.server (.createContentRequest ⟨"root", .admin⟩ "s:t:u" [.response] none (.v7 0)
      (.v7 1) 20)),
    .other (.poll sampleToken 30), .other (.deliver 0 40),
    .other (.store (Transfer.sampleInput [7]))] ++
  List.replicate 6 (.act ⟨.answered, 50, 50⟩)

theorem encodeAll_runLength_ne (body : Bytes) : Transfer.runLength.encodeAll body ≠ [] := by
  simp only [Transfer.runLength]
  split <;> simp

theorem stage_sample :
    (Run.run (daemonStep Transfer.runLength sampleToken fun _ => "refused") sampleDaemon
      sampleEvents).stage = .telling (.v7 1) ⟨.v7 0, .stored, none⟩ := rfl

theorem telling_run_sample :
    ∃ row, (Run.run (daemonStep Transfer.runLength sampleToken fun _ => "refused") sampleDaemon
        sampleEvents).server.content.contentRequests.get? (.v7 0) = some row ∧
      (Run.run (daemonStep Transfer.runLength sampleToken fun _ => "refused") sampleDaemon
        sampleEvents).server.content.Covered (.v7 0) row.partsJson :=
  telling_run encodeAll_runLength_ne ⟨rfl, rfl, rfl, rfl⟩ (by decide +kernel) stage_sample rfl

end Codexwatch.System.Uploading
