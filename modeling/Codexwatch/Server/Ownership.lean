import Codexwatch.Server.Fulfilment
import Codexwatch.Server.Pairing
import Codexwatch.Server.Visibility

/-!
# Whose full content a request reaches

A row of the full-content service belongs to the client of its request. The posts of a
client reach the rows of its own requests, a content request those of the client that its
task is stored for, the evictions it causes included. Objects are shared: an upload of
another client may write an object again, compressed otherwise or used later, but only with
a body of the same digest.

## Main definitions

* `ContentTables.KeepsFor a t t'` — the rows of `a` are the same.
* `Spared` — and the objects that they link to hold the same bodies.
* `Api.Concerns` — the events that may reach rows of a client.
* `spared_run` — that no other event does.
-/
namespace Codexwatch.Server

open Protocol Relational Check

namespace ContentTables

variable {t t' t'' : ContentTables} {a : String} {now : TimestampMs} {requestId : Uuid}

/-- The client of a request. -/
def clientOf (t : ContentTables) (requestId : Uuid) : Option String :=
  (t.contentRequests.get? requestId).map ContentRequestRow.clientId

/-- The rows of client `a` are the same. -/
structure KeepsFor (a : String) (t t' : ContentTables) : Prop where
  requests : Table.Agree (fun _ row => row.clientId = a) t.contentRequests t'.contentRequests
  commands : Table.Agree (fun _ row => row.clientId = a) t.commands t'.commands
  manifests :
    Table.Agree (fun key _ => t.clientOf key.1 = some a) t.contentManifests t'.contentManifests
  chunks : Table.Agree (fun key _ => t.clientOf key.1 = some a) t.contentChunks t'.contentChunks
  links : Table.Agree (fun key _ => t.clientOf key.1 = some a) t.contentLinks t'.contentLinks
  conversations :
    Table.Agree (fun key _ => key.1 = a) t.contentConversations t'.contentConversations

theorem KeepsFor.refl (a : String) (t : ContentTables) : KeepsFor a t t :=
  ⟨.refl _, .refl _, .refl _, .refl _, .refl _, .refl _⟩

theorem KeepsFor.clientOf (h : KeepsFor a t t') :
    t.clientOf requestId = some a ↔ t'.clientOf requestId = some a := by
  simp only [ContentTables.clientOf, Option.map_eq_some_iff]
  exact exists_congr fun row => and_congr_left fun hrow => h.requests requestId row hrow

theorem KeepsFor.trans (h₁ : KeepsFor a t t') (h₂ : KeepsFor a t' t'') : KeepsFor a t t'' where
  requests := h₁.requests.trans h₂.requests
  commands := h₁.commands.trans h₂.commands
  manifests := h₁.manifests.trans (h₂.manifests.mono fun _ _ => h₁.clientOf.mp)
  chunks := h₁.chunks.trans (h₂.chunks.mono fun _ _ => h₁.clientOf.mp)
  links := h₁.links.trans (h₂.links.mono fun _ _ => h₁.clientOf.mp)
  conversations := h₁.conversations.trans h₂.conversations

/-! ## Statements about requests of others -/

/-- The request is of the client of all its commands. -/
theorem CommandsOwned.clientOf (h : t.CommandsOwned) {commandId : Uuid} {command : CommandRow}
    (hcommand : t.commands.get? commandId = some command) :
    t.clientOf command.requestId = some command.clientId := by
  obtain ⟨row, hrow, howner⟩ := h commandId command hcommand
  rw [ContentTables.clientOf, hrow, Option.map_some, howner]

/-- A request that is found by a command of a client is that client's. -/
theorem CommandsOwned.clientOf_of_load (h : t.CommandsOwned) {commandId : Uuid} {client : String}
    {request : ContentRequest} (hload : t.loadCommandRequest commandId client = some request) :
    t.clientOf request.requestId = some client ∧ request.clientId = client := by
  simp only [loadCommandRequest, Option.bind_eq_bind, Option.bind_eq_some_iff,
    Option.guard_eq_some', Option.pure_def, Option.some.injEq] at hload
  obtain ⟨command, hcommand, _, rfl, row, -, rfl⟩ := hload
  exact ⟨h.clientOf hcommand, rfl⟩

theorem keepsFor_complete (howned : t.CommandsOwned) (hother : t.clientOf requestId ≠ some a)
    (status : RequestStatus) : KeepsFor a t (t.completeRequestAndCommand requestId status now) where
  requests := .modify fun old hold => by
    have hne : old.clientId ≠ a := by
      rintro rfl
      simp [ContentTables.clientOf, hold] at hother
    exact ⟨hne, hne⟩
  commands := .updateWhere fun commandId command hcommand hrequest => by
    have hne : command.clientId ≠ a := by
      rintro rfl
      obtain rfl : command.requestId = requestId := by simpa using hrequest
      exact hother (howned.clientOf hcommand)
    exact ⟨hne, hne⟩
  manifests := .refl _
  chunks := .refl _
  links := .refl _
  conversations := .refl _

theorem keepsFor_insertManifests {client : String} {manifests : List ContentObjectManifest}
    (hother : ∀ m ∈ manifests, t.clientOf m.requestId ≠ some a) :
    KeepsFor a t (t.insertManifests manifests client now) := by
  induction manifests generalizing t with
  | nil => exact .refl a t
  | cons m manifests ih =>
      rw [List.forall_mem_cons] at hother
      have hm : KeepsFor a t (t.insertManifest m client now) := by
        refine ⟨.refl _, .refl _, ?_, .refl _, .refl _, .refl _⟩
        rw [insertManifest, Table.insertIgnore]
        split
        · exact .refl _
        · exact .put (fun _ _ => hother.1) hother.1
      exact hm.trans (ih hother.2)

theorem keepsFor_insertChunk {chunk : ContentUploadChunk}
    (hother : t.clientOf chunk.requestId ≠ some a) : KeepsFor a t (t.insertChunk chunk now) :=
  ⟨.refl _, .refl _, .refl _, .put (fun _ _ => hother) hother, .refl _, .refl _⟩

theorem keepsFor_upsertChunkRow {chunk : ContentUploadChunk} {duplicate : Bool}
    (hother : t.clientOf chunk.requestId ≠ some a)
    (hupsert : t.upsertChunkRow chunk now = .ok (duplicate, t')) : KeepsFor a t t' := by
  rcases upsertChunkRow_eq_ok.mp hupsert with ⟨row, -, -, -, -, heq⟩ | ⟨-, -, heq⟩
  · cases heq
    exact .refl a t
  · cases heq
    exact keepsFor_insertChunk hother

theorem keepsFor_storeObject (howned : t.CommandsOwned) {request : ContentRequest}
    {manifest : ContentObjectManifest} {assembled uncompressed : Bytes}
    (hother : t.clientOf request.requestId ≠ some a) (hclient : request.clientId ≠ a) :
    KeepsFor a t (t.storeObject request manifest assembled uncompressed now) := by
  have hlinked : KeepsFor a t ((t.upsertContentObject request manifest assembled uncompressed
      now).touchConversation request.clientId request.sessionId request.threadId now) :=
    ⟨.refl _, .refl _, .refl _, .refl _, .put (fun _ _ => hother) hother,
      .put (fun _ _ => hclient) hclient⟩
  -- the requests and the commands are still the ones of `t`
  have howned' : ((t.upsertContentObject request manifest assembled uncompressed
      now).touchConversation request.clientId request.sessionId request.threadId
      now).CommandsOwned := howned
  rw [storeObject]
  split
  · exact hlinked.trans (keepsFor_complete howned' hother .stored)
  · refine hlinked.trans ⟨.modify fun old hold => ?_, .refl _, .refl _, .refl _, .refl _, .refl _⟩
    have hne : old.clientId ≠ a := by
      rintro rfl
      exact hother (by rw [ContentTables.clientOf]; exact congrArg (Option.map _) hold)
    exact ⟨hne, hne⟩

theorem keepsFor_markDispatched {commandIds : List Uuid}
    (hother : ∀ commandId ∈ commandIds, ∀ command, t.commands.get? commandId = some command →
      command.clientId ≠ a) : KeepsFor a t (markDispatched t commandIds now) :=
  ⟨.refl _, .updateWhere fun commandId command hcommand hmem => by
      have hne := hother commandId (by simpa using hmem) command hcommand
      exact ⟨hne, hne⟩, .refl _, .refl _, .refl _, .refl _⟩

/-! ## Eviction -/

/-- Evicting a conversation of one client takes nothing from another. -/
theorem keepsFor_evictConversation {client sessionId threadId : String} (h : client ≠ a) :
    KeepsFor a t (t.evictConversation client sessionId threadId) := by
  have hrequests : ∀ id ∈ t.requestsOf client sessionId threadId, t.clientOf id ≠ some a := by
    intro id hid
    obtain ⟨r, hr, rfl⟩ := List.mem_map.mp hid
    rw [List.mem_filter, decide_eq_true_eq, Table.mem_rows_iff] at hr
    rw [clientOf, hr.1, Option.map_some, hr.2.1]
    exact fun heq => h (Option.some.inj heq)
  refine ⟨.refl _, .refl _, .deleteWhere ?_, .deleteWhere ?_, .deleteWhere ?_, .deleteWhere ?_⟩
  · exact fun key _ _ hmem => hrequests key.1 (of_decide_eq_true hmem)
  · exact fun key _ _ hmem => hrequests key.1 (of_decide_eq_true hmem)
  · exact fun key _ _ hmem => hrequests key.1 (of_decide_eq_true hmem)
  · intro key _ _ hkey
    rw [of_decide_eq_true hkey]
    exact h

theorem keepsFor_withConversation {request : ContentRequest} (h : request.clientId ≠ a) :
    KeepsFor a t (withConversation request t) := by
  have htouched : KeepsFor a t (t.touchConversation request.clientId request.sessionId
      request.threadId request.createdAtMs) :=
    ⟨.refl _, .refl _, .refl _, .refl _, .refl _, .put (fun _ _ => h) h⟩
  exact evictLoop_preserves (P := KeepsFor a t)
    (fun _ _ _ ht => ht.trans (keepsFor_evictConversation h))
    _ htouched

theorem keepsFor_withContentRequest {command : ContentRequestCommand}
    (h : command.request.clientId ≠ a)
    (hrequest : t.contentRequests.get? command.request.requestId = none)
    (hcommand : t.commands.get? command.commandId = none) :
    KeepsFor a t (withContentRequest command t) := by
  refine ⟨.put ?_ h, .put ?_ h, .refl _, .refl _, .refl _, .refl _⟩
  · simp [hrequest]
  · simp [hcommand]

end ContentTables

open ContentTables

/-! ## Requests of others -/

section Requests
variable {codec : Codec} {db : Database} {principal : Principal} {now : TimestampMs} {a : String}
  {t t' : ContentTables}

/-- A content request reaches the client that its task is stored for. -/
theorem keepsFor_createContentRequest {taskRef : String} {parts : List ContentPart}
    {expiresAtMs : Option TimestampMs} {requestId commandId : Uuid}
    (hother : ¬ TaskOf db a taskRef)
    (h : createContentRequest db.tasks principal taskRef parts expiresAtMs requestId commandId now
      db.content = .ok t') : KeepsFor a db.content t' := by
  obtain ⟨row, haccepts, rfl⟩ := createContentRequest_eq_ok.mp h
  have hclient : row.clientId ≠ a := fun hclient =>
    hother (taskOf_iff.mpr ⟨row, haccepts.task, hclient⟩)
  refine (keepsFor_withConversation hclient).trans (keepsFor_withContentRequest hclient ?_ ?_)
  · rw [withConversation_contentRequests]
    exact haccepts.requestId
  · rw [withConversation_commands]
    exact haccepts.commandId

/-- Any other request reaches the rows of its own client. -/
theorem keepsFor_change (h : t.Paired) (hrole : principal.role.canIngest)
    (hother : principal.clientId ≠ a) {tasks : Table String TaskRow}
    {sent : List ContentRequestCommand}
    (hchange : Change codec tasks principal now t sent t') : KeepsFor a t t' := by
  have howned := h.commandsOwned
  -- what a command of the principal leads to is the principal's
  have hload {commandId : Uuid} {request : ContentRequest}
      (hload : t.loadCommandRequest commandId principal.clientId = some request) :
      t.clientOf request.requestId ≠ some a ∧ request.clientId ≠ a := by
    obtain ⟨hclientOf, hclient⟩ := howned.clientOf_of_load hload
    rw [hclientOf, hclient]
    exact ⟨fun heq => hother (Option.some.inj heq), hother⟩
  cases hchange with
  | none => exact .refl a t
  | polled =>
      refine keepsFor_markDispatched fun commandId hid command hcommand => ?_
      obtain ⟨r, hr, rfl⟩ := List.mem_map.mp hid
      obtain ⟨hget, hclient, -⟩ := mem_pendingCommands hr
      obtain rfl := Option.some.inj (hget.symm.trans hcommand)
      rw [hclient]
      exact hother
  | completed hdecided hcommand => exact keepsFor_complete howned (hload hcommand).1 _
  | announced haccepts =>
      refine keepsFor_insertManifests fun m hm => ?_
      rw [(haccepts.valid m hm).2.requestId]
      exact (hload haccepts.command).1
  | kept haccepts hupsert =>
      exact keepsFor_upsertChunkRow (haccepts.requestId ▸ (hload haccepts.command).1) hupsert
  | @finished _ chunk request manifest t₁ assembled uncompressed hfinishes =>
      obtain ⟨hclientOf, hclient⟩ := hload hfinishes.accepts.command
      obtain ⟨duplicate, hupsert⟩ := hfinishes.upserted
      obtain ⟨hcommands, hrequests⟩ := pairs_upsertChunkRow hupsert
      have hkept : KeepsFor a t t₁ :=
        keepsFor_upsertChunkRow (hfinishes.accepts.requestId ▸ hclientOf) hupsert
      exact hkept.trans (keepsFor_storeObject (h.of_eq hcommands hrequests).commandsOwned
        (fun heq => hclientOf (hkept.clientOf.mpr heq)) hclient)
  | requested haccepts =>
      have hadmin := haccepts.role
      cases hprincipal : principal.role <;> rw [hprincipal] at hrole hadmin <;>
        simp [TokenRole.canIngest, TokenRole.isAdmin] at hrole hadmin

end Requests

namespace Api

variable {codec : Codec} {s : Service} {a : String}

/-- The task that content is requested of. -/
def contentOf? : Call → Option String
  | .createContentRequest taskRef _ _ => some taskRef
  | _ => none

/-- The request is the client's own, or is for content of a task that is stored for it. -/
def Admitted.Concerns (a : String) (db : Database) (adm : Admitted) : Prop :=
  match contentOf? adm.call with
  | some taskRef => TaskOf db a taskRef
  | none => adm.principal.clientId = a

instance (a : String) (db : Database) (adm : Admitted) : Decidable (adm.Concerns a db) :=
  match h : contentOf? adm.call with
  | some taskRef => decidable_of_iff (TaskOf db a taskRef) (by rw [Admitted.Concerns, h])
  | none => decidable_of_iff (adm.principal.clientId = a) (by rw [Admitted.Concerns, h])

/-- The event may reach rows of the client. -/
def Concerns (a : String) (s : Service) : Event → Prop
  | .proceed index _ _ _ _ => ∃ adm, s.admitted[index]? = some adm ∧ adm.Concerns a s.db
  | .requestContent taskRef _ _ _ _ _ => TaskOf s.db a taskRef
  | _ => False

instance (a : String) (s : Service) : ∀ e, Decidable (Concerns a s e)
  | .proceed index _ _ _ _ =>
      inferInstanceAs (Decidable (∃ adm, adm ∈ s.admitted[index]? ∧ adm.Concerns a s.db))
  | .requestContent taskRef _ _ _ _ _ => inferInstanceAs (Decidable (TaskOf s.db a taskRef))
  | .token _ | .request .. | .hangUp _ | .cleanup .. => inferInstanceAs (Decidable False)

theorem keepsFor_handle (h : s.db.content.Paired) {adm : Admitted} (hother : ¬ adm.Concerns a s.db)
    (now : TimestampMs) (freshRequest freshCommand : Uuid) :
    KeepsFor a s.db.content
      (handle codec s.db adm.principal now freshRequest freshCommand adm.call).2.content := by
  cases hrefusal :
    (handle codec s.db adm.principal now freshRequest freshCommand adm.call).1.isRefusal with
  | true =>
      rw [handle_of_refusal hrefusal]
      exact .refl a _
  | false =>
      have hallows := allows_of_handle hrefusal
      have hchange := change_handle codec s.db adm.principal now freshRequest freshCommand
        adm.call
      obtain ⟨principal, call, deadline⟩ := adm
      cases call with
      | createContentRequest taskRef parts expiresAtMs =>
          rw [handle] at hrefusal ⊢
          cases hok : createContentRequest s.db.tasks principal taskRef parts expiresAtMs
            freshRequest freshCommand now s.db.content with
          | error status => simp [hok, answer, Except.map, Reply.isRefusal] at hrefusal
          | ok t => exact keepsFor_createContentRequest hother hok
      | query request => exact .refl a _
      | _ => exact keepsFor_change h hallows hother hchange

theorem keepsFor_step (h : s.db.content.Paired) {e : Event} (hother : ¬ Concerns a s e) :
    KeepsFor a s.db.content (step codec s e).db.content := by
  cases e with
  | token command => cases command <;> exact .refl a _
  | request headers call instant =>
      rw [step]
      split <;> exact .refl a _
  | proceed index instant now freshRequest freshCommand =>
      rw [step]
      split
      · exact .refl a _
      · rename_i adm hadm
        split
        · exact .refl a _
        · exact keepsFor_handle h (fun hconcerns => hother ⟨adm, hadm, hconcerns⟩) now freshRequest
            freshCommand
  | hangUp index => exact .refl a _
  | requestContent taskRef parts expiresAtMs freshRequest freshCommand now =>
      rw [step, requestContentCli]
      split
      · exact .refl a _
      · rename_i parts' _
        cases hok : createContentRequest s.db.tasks cli taskRef parts' expiresAtMs freshRequest
          freshCommand now s.db.content with
        | error status => exact .refl a _
        | ok t => exact keepsFor_createContentRequest hother hok
  | cleanup sweep now =>
      rw [step, content_sweep]
      exact .refl a _

end Api

/-! ## Runs -/

theorem whole_change {codec : Codec} {tasks : Table String TaskRow} {principal : Principal}
    {now : TimestampMs} {t t' : ContentTables} {sent : List ContentRequestCommand}
    (h : t.Whole codec) (hchange : Change codec tasks principal now t sent t') :
    t'.Whole codec := by
  cases hchange with
  | none => exact h
  | polled => exact h.of_eq rfl rfl rfl
  | completed hdecided hload => exact h.of_eq rfl rfl rfl
  | announced haccepts => exact h.insertManifests _ _ _
  | kept haccepts hupsert => exact h.upsertChunkRow hupsert
  | finished hfinishes =>
      obtain ⟨duplicate, hupsert⟩ := hfinishes.upserted
      obtain ⟨row, hrow, rfl⟩ := Option.map_eq_some_iff.mp hfinishes.accepts.stored
      have hkey := h.keyed _ row hrow
      exact (h.upsertChunkRow hupsert).storeObject hfinishes.decoded
        (by rw [hfinishes.digest, hkey])
  | requested haccepts => exact (h.withConversation _).of_eq rfl rfl rfl

/-- Two bodies have one digest. -/
def Collide (codec : Codec) (body body' : Bytes) : Prop :=
  body ≠ body' ∧ codec.sha256Hex body = codec.sha256Hex body'

/-- The object under the digest holds the body. -/
def ContentTables.Holds (codec : Codec) (t : ContentTables) (sha : String) (body : Bytes) : Prop :=
  ∃ object, t.contentObjects.get? sha = some object ∧
    codec.decodeAll object.contentZstd = some body ∧ body.length = object.uncompressedBytes

/-- The rows of the client are the same, and each object that they link to holds the same body,
unless another body of its digest has been found. -/
structure Spared (codec : Codec) (a : String) (t t' : ContentTables) : Prop where
  rows : KeepsFor a t t'
  objects : ∀ requestId sha link, t.clientOf requestId = some a →
    t.contentLinks.get? (requestId, sha) = some link →
      ∃ body body', t.Holds codec sha body ∧ t'.Holds codec sha body' ∧
        (body = body' ∨ Collide codec body body')

/-- What a link names is there, with a body of the digest. -/
theorem ContentTables.Whole.holds {codec : Codec} {t : ContentTables} (h : t.Whole codec)
    {key : ObjectKey} {link : ContentLinkRow} (hlink : t.contentLinks.get? key = some link) :
    ∃ body, t.Holds codec key.2 body ∧ codec.sha256Hex body = Text.asciiLowercase key.2 := by
  obtain ⟨object, hobject⟩ := Option.isSome_iff_exists.mp
    (h.intact.references.stored key.1 key.2 (by rw [Prod.mk.eta, hlink]; rfl))
  obtain ⟨body, hdecode, hsha, hlength⟩ := h.intact.content key.2 object hobject
  exact ⟨body, ⟨object, hobject, hdecode, hlength⟩, hsha⟩

/-- From every state that the service reaches, whatever others do leaves the full content of a
client as it is: requests with other tokens, content requests for tasks of others and their
evictions, commands and cleanups, in any order. -/
theorem spared_run (codec : Codec) (db : Database) (before es : List Api.Event) (a : String)
    (h : Run.Each (Api.step codec) (fun s e => ¬ Api.Concerns a s e)
      (Run.run (Api.step codec) (.start { db with content := .empty }) before) es) :
    Spared codec a
      (Run.run (Api.step codec) (.start { db with content := .empty }) before).db.content
      (Run.run (Api.step codec) (.start { db with content := .empty }) (before ++ es)).db.content := by
  have hpaired :
      (Run.run (Api.step codec) (.start { db with content := .empty }) before).db.content.Paired :=
    Api.content_run (I := ContentTables.Paired) (fun _ _ _ _ _ _ => paired_change) paired_empty
      before
  have hwhole (es : List Api.Event) :
      (Run.run (Api.step codec) (.start { db with content := .empty }) es).db.content.Whole codec :=
    Api.content_run (I := Whole codec) (fun _ _ _ _ _ _ => whole_change) whole_empty es
  have hrows : KeepsFor a
      (Run.run (Api.step codec) (.start { db with content := .empty }) before).db.content
      (Run.run (Api.step codec) (.start { db with content := .empty })
        (before ++ es)).db.content := by
    rw [Run.run_append]
    refine (Run.invariant_of_each (I := fun s : Api.Service => s.db.content.Paired ∧ KeepsFor a
      (Run.run (Api.step codec) (.start { db with content := .empty }) before).db.content
        s.db.content) ?_ ⟨hpaired, .refl a _⟩ h).2
    intro s e hs hother
    exact ⟨Api.paired_step hs.1 e, hs.2.trans (Api.keepsFor_step hs.1 hother)⟩
  refine ⟨hrows, fun requestId sha link hclient hlink => ?_⟩
  have hlink' := (hrows.links (requestId, sha) link hclient).mp hlink
  obtain ⟨body, hholds, hsha⟩ := (hwhole before).holds hlink
  obtain ⟨body', hholds', hsha'⟩ := (hwhole (before ++ es)).holds hlink'
  refine ⟨body, body', hholds, hholds', ?_⟩
  by_cases hsame : body = body'
  · exact .inl hsame
  · exact .inr ⟨hsame, hsha.trans hsha'.symm⟩

/-- A request with the token, taken up at once. -/
def posted (token : String) (call : Call) (instant : ℕ) : List Api.Event :=
  [.request [("authorization", Capture.textBytes ("Bearer " ++ token))] call instant,
    .proceed 0 instant instant (.v7 8) (.v7 9)]

def batchOfA : IngestBatch := sampleConversations 1

def batchOfB : IngestBatch := sampleBatch "b" "v" 2 1

/-- Clients `a` and `b` report a task each, and `a` uploads the response of its own. -/
def uploadOfA : List Api.Event :=
  [.token (.issue "a" "alpha" none false 1), .token (.issue "b" "beta" none false 1)] ++
    posted "alpha" (.ingest batchOfA.cbor) 10 ++ posted "beta" (.ingest batchOfB.cbor) 11 ++
    [.requestContent "s0:t:u" ["response"] none (.v7 0) (.v7 0) 20] ++
    posted "alpha" (.uploadManifests (.v7 0) [sampleManifest]) 30 ++
    posted "alpha" (.uploadChunk (.v7 0) (requestChunk 7)) 31

/-- Client `b` uploads a response of the same digest, and a cleanup follows. -/
def uploadOfB : List Api.Event :=
  [.requestContent "s:t:v" ["response"] none (.v7 2) (.v7 2) 40] ++
    posted "beta" (.uploadManifests (.v7 2)
      [{ sampleManifest with requestId := .v7 2, taskRef := "s:t:v", sessionId := "s" }]) 41 ++
    posted "beta" (.uploadChunk (.v7 2) { requestChunk 7 with requestId := .v7 2 }) 42 ++
    [.cleanup .heartbeats 50]

def sharingCodec : Codec := .writing [batchOfA, batchOfB]

/-- Full content after the events, on a database that has none. -/
def contentAfter (db : Database) (es : List Api.Event) : ContentTables :=
  (Run.run (Api.step sharingCodec) (.start { db with content := .empty }) es).db.content

/-- Both clients are linked to the object in the end. -/
theorem spared_run_sharedObject :
    ((contentAfter .empty uploadOfA).clientOf (.v7 0) = some "a" ∧
      ((contentAfter .empty uploadOfA).contentLinks.get?
        (.v7 0, Text.hexEncode (List.replicate 32 7))).isSome ∧
      ((contentAfter .empty (uploadOfA ++ uploadOfB)).contentLinks.get?
        (.v7 2, Text.hexEncode (List.replicate 32 7))).isSome) ∧
      Spared sharingCodec "a" (contentAfter .empty uploadOfA)
        (contentAfter .empty (uploadOfA ++ uploadOfB)) :=
  ⟨by decide +kernel, spared_run sharingCodec .empty uploadOfA uploadOfB "a" (by decide +kernel)⟩

end Codexwatch.Server
