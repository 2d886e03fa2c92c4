import Codexwatch.Lib.Reference
import Codexwatch.Server.Retention

/-!
# Integrity of the content store

Objects are shared by requests, conversations and clients. An upload writes the
object and the link to it together; an eviction deletes the links of a conversation
and then the objects that no link names any more.

## Main definitions

* `ContentTables.Intact` — links and objects name each other, and objects are what
  their keys say.
* `contentReply` — what a request leaves of the content tables, or its refusal.
* `intact_run` — the store after any requests.
-/
namespace Codexwatch.Server

open Protocol Relational Check

namespace ContentTables

/-- What holds of links and objects. The key of an object is the digest of its content in either
letter case. -/
structure Intact (codec : Codec) (t : ContentTables) : Prop where
  references : Referential t.contentLinks t.contentObjects
  content : ∀ sha object, t.contentObjects.get? sha = some object →
    ∃ body, codec.decodeAll object.contentZstd = some body ∧
      codec.sha256Hex body = Text.asciiLowercase sha ∧ body.length = object.uncompressedBytes

/-- A manifest is stored under the digest that it names. -/
def ManifestsKeyed (t : ContentTables) : Prop :=
  ∀ key row, t.contentManifests.get? key = some row → row.manifestJson.objectSha256 = key.2

/-- What every request leaves true. -/
structure Whole (codec : Codec) (t : ContentTables) : Prop where
  intact : t.Intact codec
  keyed : t.ManifestsKeyed

variable {codec : Codec} {t t' : ContentTables} {clientId sessionId threadId : String}
  {now : TimestampMs}

theorem whole_empty : ContentTables.empty.Whole codec where
  intact := ⟨referential_empty, by simp [ContentTables.empty]⟩
  keyed := by simp [ManifestsKeyed, ContentTables.empty]

/-- The other tables do not matter. -/
theorem Whole.of_eq (h : t.Whole codec) (hobjects : t'.contentObjects = t.contentObjects)
    (hlinks : t'.contentLinks = t.contentLinks)
    (hmanifests : t'.contentManifests = t.contentManifests) : t'.Whole codec := by
  obtain ⟨⟨hreferences, hcontent⟩, hkeyed⟩ := h
  refine ⟨⟨?_, ?_⟩, ?_⟩
  · rwa [hlinks, hobjects]
  · rwa [hobjects]
  · rwa [ManifestsKeyed, hmanifests]

/-! ## Eviction -/

/-- The requests of a conversation. -/
def requestsOf (t : ContentTables) (clientId sessionId threadId : String) : List Uuid :=
  (t.contentRequests.rows.filter fun r =>
    r.2.clientId = clientId ∧ r.2.sessionId = sessionId ∧ r.2.threadId = threadId).map Prod.fst

/-- Some request of the conversation holds the object, and no other request does. -/
def HeldOnlyBy (t : ContentTables) (requestIds : List Uuid) (sha : String) : Prop :=
  (∃ r ∈ t.contentLinks.rows, r.1.1 ∈ requestIds ∧ r.1.2 = sha) ∧
    ∀ r ∈ t.contentLinks.rows, r.1.2 = sha → r.1.1 ∈ requestIds

instance (requestIds : List Uuid) (sha : String) : Decidable (t.HeldOnlyBy requestIds sha) :=
  inferInstanceAs (Decidable (_ ∧ _))

theorem contentObjects_evictConversation (sha : String) :
    (t.evictConversation clientId sessionId threadId).contentObjects.get? sha =
      if t.HeldOnlyBy (t.requestsOf clientId sessionId threadId) sha then none
      else t.contentObjects.get? sha := by
  have hobjects : (t.evictConversation clientId sessionId threadId).contentObjects =
      t.contentObjects.deleteWhere fun sha _ =>
        decide (t.HeldOnlyBy (t.requestsOf clientId sessionId threadId) sha) := by
    simp only [evictConversation]
    congr
    funext sha _
    rw [decide_eq_decide]
    change sha ∈ ((t.contentLinks.rows.filter fun r =>
        decide (r.1.1 ∈ t.requestsOf clientId sessionId threadId)).map fun r => r.1.2) ∧
      ((t.contentLinks.deleteWhere fun k _ =>
        decide (k.1 ∈ t.requestsOf clientId sessionId threadId)).rows.all fun r =>
          decide (r.1.2 ≠ sha)) = true ↔ _
    simp [HeldOnlyBy, Table.deleteWhere, or_iff_not_imp_right]
  rw [hobjects, Table.get?_deleteWhere]
  by_cases hheld : t.HeldOnlyBy (t.requestsOf clientId sessionId threadId) sha
  · simp [hheld]
  · cases t.contentObjects.get? sha <;> simp [hheld]

theorem releases_evictConversation :
    Releases (fun requestId => decide (requestId ∈ t.requestsOf clientId sessionId threadId))
      t.contentLinks t.contentObjects
      (t.evictConversation clientId sessionId threadId).contentObjects := by
  have hmem : ∀ k i, (t.contentLinks.get? (k, i)).isSome ↔
      ∃ link, ((k, i), link) ∈ t.contentLinks.rows := by
    simp [Option.isSome_iff_exists, Table.get?_eq_some]
  constructor
  · intro k i hlink hother
    rw [hmem] at hlink
    rcases hlink with ⟨link, hlink⟩
    rw [contentObjects_evictConversation, if_neg]
    intro hheld
    simp [hheld.2 _ hlink rfl] at hother
  · intro k i hlink hholder hobject
    rw [hmem] at hlink
    rcases hlink with ⟨link, hlink⟩
    rw [contentObjects_evictConversation] at hobject
    have hnot : ¬ t.HeldOnlyBy (t.requestsOf clientId sessionId threadId) i := by
      intro hheld
      simp [hheld] at hobject
    simp only [HeldOnlyBy, not_and, not_forall] at hnot
    rcases hnot ⟨_, hlink, by simpa using hholder, rfl⟩ with ⟨⟨⟨k', i'⟩, link'⟩, hr, rfl, hk'⟩
    exact ⟨k', (hmem k' i').mpr ⟨link', hr⟩, by simpa using hk'⟩
  · intro i hobject
    rw [contentObjects_evictConversation] at hobject
    split at hobject
    · simp at hobject
    · exact hobject

theorem Whole.evictConversation (h : t.Whole codec) (clientId sessionId threadId : String) :
    (t.evictConversation clientId sessionId threadId).Whole codec := by
  constructor
  · refine ⟨h.intact.references.release releases_evictConversation, ?_⟩
    intro sha object hobject
    rw [contentObjects_evictConversation] at hobject
    split at hobject
    · simp at hobject
    · exact h.intact.content sha object hobject
  · intro key row hrow
    simp only [ContentTables.evictConversation, Table.get?_deleteWhere,
      Option.filter_eq_some_iff] at hrow
    exact h.keyed key row hrow.1

/-- A new request evicts conversations, and writes no content. -/
theorem Whole.withConversation (h : t.Whole codec) (request : ContentRequest) :
    (Server.withConversation request t).Whole codec :=
  evictLoop_preserves (fun _ _ _ ht => ht.evictConversation _ _ _) _
    (show (t.touchConversation request.clientId request.sessionId request.threadId
      request.createdAtMs).Whole codec from h.of_eq rfl rfl rfl)

/-! ## Uploads -/

theorem Whole.insertManifest (h : t.Whole codec) (manifest : ContentObjectManifest)
    (clientId : String) (now : TimestampMs) :
    (t.insertManifest manifest clientId now).Whole codec where
  intact := ⟨h.intact.references, h.intact.content⟩
  keyed := by
    intro key row hrow
    rw [get?_insertManifest] at hrow
    split at hrow
    · rename_i hkey
      rw [Option.some.injEq] at hrow
      rw [← hrow, hkey]
      cases hstored : t.contentManifests.get? (manifestKey manifest) with
      | none => rfl
      | some old => exact h.keyed _ old hstored
    · exact h.keyed key row hrow

theorem Whole.insertManifests (h : t.Whole codec) (manifests : List ContentObjectManifest)
    (clientId : String) (now : TimestampMs) :
    (t.insertManifests manifests clientId now).Whole codec := by
  induction manifests generalizing t with
  | nil => exact h
  | cons m manifests ih => exact ih (h.insertManifest m clientId now)

theorem Whole.upsertChunkRow (h : t.Whole codec) {chunk : ContentUploadChunk} {duplicate : Bool}
    (hupsert : t.upsertChunkRow chunk now = .ok (duplicate, t')) : t'.Whole codec := by
  rcases upsertChunkRow_eq_ok.mp hupsert with ⟨row, -, -, -, -, heq⟩ | ⟨-, -, heq⟩
  · cases heq
    exact h
  · cases heq
    exact h.of_eq rfl rfl rfl

/-- The object that is stored is what the chunks decompress to. -/
theorem Whole.storeObject (h : t.Whole codec) {request : ContentRequest}
    {manifest : ContentObjectManifest} {assembled uncompressed : Bytes}
    (hdecode : codec.decodeAll assembled = some uncompressed)
    (hsha : codec.sha256Hex uncompressed = Text.asciiLowercase manifest.objectSha256) :
    (t.storeObject request manifest assembled uncompressed now).Whole codec := by
  have hupserted : (t.upsertContentObject request manifest assembled uncompressed now).Whole
      codec := by
    refine ⟨⟨h.intact.references.put _ _ _ _, ?_⟩, h.keyed⟩
    intro sha object hobject
    simp only [upsertContentObject, Table.get?_upsert] at hobject
    split at hobject
    · rename_i heq
      rw [Option.some.injEq] at hobject
      refine ⟨uncompressed, ?_, heq ▸ hsha, ?_⟩
      all_goals
        rw [← hobject]
        cases t.contentObjects.get? manifest.objectSha256 <;> simp [hdecode]
    · exact h.intact.content sha object hobject
  rw [ContentTables.storeObject]
  split
  · exact hupserted.of_eq rfl rfl rfl
  · exact hupserted.of_eq rfl rfl rfl

end ContentTables

open ContentTables

theorem whole_commit {codec : Codec} {db : Database} {r : Except StatusCode ContentTables}
    (h : db.content.Whole codec) (hr : ∀ t, r = .ok t → t.Whole codec) :
    (commit db r).content.Whole codec := by
  cases r with
  | error status => exact h
  | ok t => exact hr t rfl

theorem whole_step (codec : Codec) {db : Database} (event : Event) (h : db.content.Whole codec) :
    (step codec db event).content.Whole codec := by
  cases event with
  | ingest principal body now =>
      rw [step, ingest_content]
      exact h
  | createContentRequest principal taskRef parts expiresAtMs requestId commandId now =>
      apply whole_commit h
      intro t ht
      rcases createContentRequest_eq_ok.mp ht with ⟨row, -, rfl⟩
      exact (h.withConversation _).of_eq rfl rfl rfl
  | uploadManifests principal commandId manifests now =>
      apply whole_commit h
      intro t ht
      rcases uploadManifests_eq_ok.mp ht with ⟨request, -, rfl⟩ | ⟨request, -, -, -, -, rfl⟩
      · exact h.insertManifests manifests request.clientId now
      · exact h.of_eq rfl rfl rfl
  | uploadChunk principal commandId chunk now =>
      apply whole_commit h
      intro t ht
      rcases map_eq_ok.mp ht with ⟨r, hr, rfl⟩
      rcases uploadChunk_eq_ok.mp hr with
        ⟨request, manifest, haccepts, duplicate, t₁, hupsert, hfinish⟩ | ⟨request, -, -, -, -, -, rfl⟩
      · have hupserted := h.upsertChunkRow hupsert
        rcases finishObject_eq_ok.mp hfinish with
          ⟨-, rfl⟩ | ⟨-, assembled, uncompressed, -, hdecode, hsha, -, -, rfl⟩
        · exact hupserted
        · -- the manifest was found under the digest of the chunk
          rcases Option.map_eq_some_iff.mp haccepts.stored with ⟨row, hrow, rfl⟩
          have hkey := h.keyed _ row hrow
          exact hupserted.storeObject hdecode (by rw [hsha, hkey])
      · exact h.of_eq rfl rfl rfl
  | uploadResult principal commandId result now =>
      apply whole_commit h
      intro t ht
      rcases uploadResult_eq_ok.mp ht with ⟨-, request, -, -, rfl⟩
      exact h.of_eq rfl rfl rfl

/-- The content tables that a request leaves, or the status that it is refused with. -/
def contentReply (codec : Codec) (db : Database) : Event → Except StatusCode ContentTables
  | .ingest principal body now => .ok (Server.ingest codec principal body now db).2.content
  | .createContentRequest principal taskRef parts expiresAtMs requestId commandId now =>
      Server.createContentRequest db.tasks principal taskRef parts expiresAtMs requestId commandId
        now db.content
  | .uploadManifests principal commandId manifests now =>
      Server.uploadManifests principal commandId manifests now db.content
  | .uploadChunk principal commandId chunk now =>
      (Server.uploadChunk codec principal commandId chunk now db.content).map Prod.snd
  | .uploadResult principal commandId result now =>
      Server.uploadResult principal commandId result now db.content

/-- In every state that content requests, evictions and uploads lead to, links and objects name
each other and every object is what its key says; what is refused changes nothing. The ingest
tables may start anyhow. -/
theorem intact_run (codec : Codec) (db : Database) (events : List Event) :
    (Run.run (step codec) { db with content := .empty } events).content.Intact codec ∧
      ∀ event status,
        contentReply codec (Run.run (step codec) { db with content := .empty } events) event =
          .error status →
        step codec (Run.run (step codec) { db with content := .empty } events) event =
          Run.run (step codec) { db with content := .empty } events := by
  constructor
  · have hwhole := Run.invariant (I := fun db : Database => db.content.Whole codec)
      (fun _ event h => whole_step codec event h)
      (show ({ db with content := .empty } : Database).content.Whole codec from whole_empty) events
    exact hwhole.intact
  · intro event status hrefused
    cases event with
    | ingest principal body now => cases hrefused
    | createContentRequest principal taskRef parts expiresAtMs requestId commandId now =>
        simp only [contentReply] at hrefused
        rw [step, hrefused, commit]
    | uploadManifests principal commandId manifests now =>
        simp only [contentReply] at hrefused
        rw [step, hrefused, commit]
    | uploadChunk principal commandId chunk now =>
        simp only [contentReply] at hrefused
        rw [step, hrefused, commit]
    | uploadResult principal commandId result now =>
        simp only [contentReply] at hrefused
        rw [step, hrefused, commit]

end Codexwatch.Server
