import Codexwatch.Server.Fulfilment
import Codexwatch.Server.Pairing

/-!
# What has arrived stays

Manifests and chunks are only ever added, and go together, when the conversation of their
request is evicted. What was sent of a request is therefore there until then, whatever else the
server is asked; and as long as it is there, the content of a part is stored when its manifest
and its chunks have come.

## Main definitions

* `StillHas`, `Gone` — what a step keeps of a request, and a request that was evicted.

## Main results

* `stillHas_or_gone` — every step does one or the other.
* `tidy_step`, `paired_step` — invariants of every step.
-/
namespace Codexwatch.Server

open Protocol Relational Check

namespace ContentTables

variable {codec : Codec} {t t' t'' : ContentTables} {requestId : Uuid}

/-! ## Tidy tables -/

/-- Requests, commands and conversations do not matter. -/
theorem Tidy.of_eq (h : t.Tidy codec) (hobjects : t'.contentObjects = t.contentObjects)
    (hlinks : t'.contentLinks = t.contentLinks)
    (hmanifests : t'.contentManifests = t.contentManifests)
    (hchunks : t'.contentChunks = t.contentChunks) : t'.Tidy codec := by
  rcases h with ⟨hwhole, ⟨hcounted, hannounced, hnamed⟩, hlinked⟩
  refine ⟨hwhole.of_eq hobjects hlinks hmanifests, ⟨?_, ?_, ?_⟩, ?_⟩
  · rwa [hmanifests]
  · rwa [hmanifests, hchunks]
  · simpa only [HasChunks, hmanifests, hchunks, hlinks] using hnamed
  · simpa only [LinkedExcept, HasChunks, hmanifests, hchunks, hlinks] using hlinked

section Evict
variable (t) (clientId sessionId threadId : String)

/-- An eviction takes the rows of the requests of the conversation, and no others. -/
theorem rows_evictConversation :
    (∀ key, (t.evictConversation clientId sessionId threadId).contentManifests.get? key =
      if key.1 ∈ t.requestsOf clientId sessionId threadId then none
      else t.contentManifests.get? key) ∧
    (∀ key, (t.evictConversation clientId sessionId threadId).contentChunks.get? key =
      if key.1 ∈ t.requestsOf clientId sessionId threadId then none
      else t.contentChunks.get? key) ∧
    ∀ key, (t.evictConversation clientId sessionId threadId).contentLinks.get? key =
      if key.1 ∈ t.requestsOf clientId sessionId threadId then none
      else t.contentLinks.get? key := by
  simp only [evictConversation]
  refine ⟨fun key => ?_, fun key => ?_, fun key => ?_⟩
  all_goals
    rw [Table.get?_deleteWhere_key]
    simp only [decide_eq_true_eq]
    rfl

theorem Tidy.evictConversation (h : t.Tidy codec) :
    (t.evictConversation clientId sessionId threadId).Tidy codec := by
  rcases rows_evictConversation t clientId sessionId threadId with ⟨hmanifests, hchunks, hlinks⟩
  have hsame {requestId : Uuid} (hkept : requestId ∉ t.requestsOf clientId sessionId threadId)
      {sha : String} {n : ℕ} :
      (t.evictConversation clientId sessionId threadId).HasChunks requestId sha n ↔
        t.HasChunks requestId sha n := by simp [HasChunks, hchunks, hkept]
  refine ⟨h.whole.evictConversation .., ⟨?_, ?_, ?_⟩, ?_⟩
  · intro key row hrow
    rw [hmanifests] at hrow
    split at hrow
    · cases hrow
    · exact h.attributed.counted key row hrow
  · intro requestId sha i hchunk
    rw [hchunks] at hchunk
    split at hchunk
    · cases hchunk
    · rename_i hkept
      rw [hmanifests, if_neg hkept]
      exact h.attributed.announced requestId sha i hchunk
  · intro requestId sha link hlink
    rw [hlinks] at hlink
    split at hlink
    · cases hlink
    · rename_i hkept
      rw [hmanifests, if_neg hkept]
      rcases h.attributed.named requestId sha link hlink with ⟨row, hrow, hnamed, hall⟩
      exact ⟨row, hrow, hnamed, (hsame hkept).mpr hall⟩
  · intro requestId sha row hkey hrow hall
    rw [hmanifests] at hrow
    split at hrow
    · cases hrow
    · rename_i hkept
      rw [hlinks, if_neg hkept]
      exact h.linked requestId sha row hkey hrow ((hsame hkept).mp hall)

end Evict

theorem Tidy.withConversation (h : t.Tidy codec) (request : ContentRequest) :
    (Server.withConversation request t).Tidy codec :=
  evictLoop_preserves (fun _ _ _ ht => ht.evictConversation _ _ _ _) _
    (show (t.touchConversation request.clientId request.sessionId request.threadId
      request.createdAtMs).Tidy codec from h.of_eq rfl rfl rfl rfl)

/-! ## What a step keeps of a request -/

/-- The manifests and the chunks of the request are still there. -/
structure StillHas (requestId : Uuid) (t t' : ContentTables) : Prop where
  manifests : ∀ sha row, t.contentManifests.get? (requestId, sha) = some row →
    t'.contentManifests.get? (requestId, sha) = some row
  chunks : ∀ sha i, (t.contentChunks.get? (requestId, sha, i)).isSome →
    (t'.contentChunks.get? (requestId, sha, i)).isSome

/-- Nothing is known of the content of the request. -/
def Gone (requestId : Uuid) (t : ContentTables) : Prop :=
  ∀ sha, t.contentManifests.get? (requestId, sha) = none

instance (requestId : Uuid) (t : ContentTables) : Decidable (Gone requestId t) :=
  decidable_of_iff (∀ r ∈ t.contentManifests.rows, r.1.1 ≠ requestId) (by
    constructor
    · intro h sha
      refine Option.eq_none_iff_forall_ne_some.mpr fun row hrow => ?_
      exact h _ (Table.get?_eq_some.mp hrow) rfl
    · rintro h ⟨⟨requestId', sha⟩, row⟩ hr rfl
      have hrow := Table.get?_eq_some.mpr hr
      rw [h sha] at hrow
      cases hrow)

theorem StillHas.of_eq (hmanifests : t'.contentManifests = t.contentManifests)
    (hchunks : t'.contentChunks = t.contentChunks) : StillHas requestId t t' where
  manifests _ _ hrow := hmanifests ▸ hrow
  chunks _ _ hchunk := hchunks ▸ hchunk

theorem StillHas.trans (h : StillHas requestId t t') (h' : StillHas requestId t' t'') :
    StillHas requestId t t'' where
  manifests sha row hrow := h'.manifests sha row (h.manifests sha row hrow)
  chunks sha i hchunk := h'.chunks sha i (h.chunks sha i hchunk)

theorem StillHas.hasChunks (h : StillHas requestId t t') {sha : String} {n : ℕ}
    (hchunks : t.HasChunks requestId sha n) : t'.HasChunks requestId sha n :=
  fun i hi => h.chunks sha i (hchunks i hi)

theorem StillHas.arrived (h : StillHas requestId t t') {parts : List ContentPart}
    (harrived : t.Arrived requestId parts) : t'.Arrived requestId parts := by
  intro part hpart
  rcases harrived part hpart with ⟨sha, row, hrow, hnames, hchunks⟩
  exact ⟨sha, row, h.manifests sha row hrow, hnames, h.hasChunks hchunks⟩

theorem stillHas_insertManifests (manifests : List ContentObjectManifest) (clientId : String)
    (now : TimestampMs) : StillHas requestId t (t.insertManifests manifests clientId now) := by
  induction manifests generalizing t with
  | nil => exact .of_eq rfl rfl
  | cons m manifests ih =>
      have hfirst : StillHas requestId t (t.insertManifest m clientId now) := by
        refine ⟨fun sha row hrow => ?_, fun _ _ hchunk => hchunk⟩
        rw [get?_insertManifest, hrow]
        split <;> rfl
      exact hfirst.trans ih

/-- Manifests that go in are found as they are. -/
theorem loadManifest_insertManifests {manifests : List ContentObjectManifest}
    (hfit : t.ManifestsFit manifests) (clientId : String) (now : TimestampMs)
    {m : ContentObjectManifest} (hm : m ∈ manifests) :
    (t.insertManifests manifests clientId now).loadManifest m.requestId m.objectSha256 = some m := by
  induction manifests generalizing t with
  | nil => cases hm
  | cons first manifests ih =>
      rcases (manifestsFit_cons clientId now).mp hfit with ⟨hfirst, hrest⟩
      rcases List.mem_cons.mp hm with rfl | hm
      · have hrow : ∃ row, (t.insertManifest m clientId now).contentManifests.get?
            (m.requestId, m.objectSha256) = some row ∧ row.manifestJson = m := by
          rw [get?_insertManifest]
          refine ⟨_, if_pos rfl, ?_⟩
          cases hold : t.contentManifests.get? (m.requestId, m.objectSha256) with
          | none => rfl
          | some old => exact hfirst old hold
        rcases hrow with ⟨row, hrow, hsame⟩
        have hstill := (stillHas_insertManifests manifests clientId now).manifests _ _ hrow
        simp only [insertManifests, List.foldl_cons] at hstill ⊢
        rw [loadManifest, hstill, Option.map_some, hsame]
      · exact ih hrest hm

theorem stillHas_upsertChunkRow {chunk : ContentUploadChunk} {now : TimestampMs} {duplicate : Bool}
    (h : t.upsertChunkRow chunk now = .ok (duplicate, t')) : StillHas requestId t t' := by
  rcases upsertChunkRow_frame h with ⟨hmanifests, -, -, hchunks⟩
  exact ⟨fun _ _ hrow => hmanifests ▸ hrow, fun _ _ hchunk => (hchunks _).mpr (.inr hchunk)⟩

theorem stillHas_storeObject (request : ContentRequest) (manifest : ContentObjectManifest)
    (assembled uncompressed : Bytes) (now : TimestampMs) :
    StillHas requestId t (t.storeObject request manifest assembled uncompressed now) :=
  .of_eq (storeObject_frame t request manifest assembled uncompressed now).1
    (storeObject_frame t request manifest assembled uncompressed now).2

/-- Evictions take all the request has or nothing. -/
theorem stillHas_withConversation (request : ContentRequest) :
    StillHas requestId t (Server.withConversation request t) ∨
      Gone requestId (Server.withConversation request t) := by
  refine evictLoop_preserves (P := fun t' => StillHas requestId t t' ∨ Gone requestId t')
    (fun t' sessionId threadId ht' => ?_) _ (.inl (.of_eq rfl rfl))
  rcases rows_evictConversation t' request.clientId sessionId threadId with
    ⟨hmanifests, hchunks, -⟩
  by_cases hevicted : requestId ∈ t'.requestsOf request.clientId sessionId threadId
  · exact .inr fun sha => by rw [hmanifests, if_pos hevicted]
  · rcases ht' with hstill | hgone
    · refine .inl (hstill.trans ⟨fun sha row hrow => ?_, fun sha i hchunk => ?_⟩)
      · rw [hmanifests, if_neg hevicted, hrow]
      · rw [hchunks, if_neg hevicted]
        exact hchunk
    · exact .inr fun sha => by rw [hmanifests, if_neg hevicted, hgone]

end ContentTables

open ContentTables

/-! ## Every step -/

section Steps
variable {codec : Codec} {db : Database}

theorem Effect.stillHas {t t' : ContentTables} {post : Post} (h : Effect codec t post t')
    (requestId : Uuid) : StillHas requestId t t' := by
  cases h with
  | refused => exact .of_eq rfl rfl
  | expired => exact .of_eq rfl rfl
  | announced => exact stillHas_insertManifests _ _ _
  | kept _ hupsert => exact stillHas_upsertChunkRow hupsert
  | finished hfinishes =>
      rcases hfinishes.upserted with ⟨_, hupsert⟩
      exact (stillHas_upsertChunkRow hupsert).trans (stillHas_storeObject _ _ _ _ _)
  | decided => exact .of_eq rfl rfl

/-- What is known of the content of a request stays, or all of it goes. -/
theorem stillHas_or_gone (codec : Codec) (db : Database) (event : Event) (requestId : Uuid) :
    StillHas requestId db.content (step codec db event).content ∨
      Gone requestId (step codec db event).content := by
  cases event with
  | ingest principal body now =>
      rw [step, ingest_content]
      exact .inl (.of_eq rfl rfl)
  | createContentRequest principal taskRef parts expiresAtMs request command now =>
      rw [step]
      cases hok : Server.createContentRequest db.tasks principal taskRef parts expiresAtMs request
          command now db.content with
      | error status => exact .inl (.of_eq rfl rfl)
      | ok t =>
          rcases createContentRequest_eq_ok.mp hok with ⟨row, -, rfl⟩
          exact (stillHas_withConversation _).imp (fun hstill => hstill.trans (.of_eq rfl rfl)) id
  | uploadManifests principal commandId manifests now =>
      exact .inl ((effect_receive codec db (.uploadManifests principal commandId manifests
        now)).stillHas requestId)
  | uploadChunk principal commandId chunk now =>
      exact .inl ((effect_receive codec db (.uploadChunk principal commandId chunk now)).stillHas
        requestId)
  | uploadResult principal commandId result now =>
      exact .inl ((effect_receive codec db (.uploadResult principal commandId result now)).stillHas
        requestId)

theorem tidy_step (h : db.content.Tidy codec) (event : Event) :
    (step codec db event).content.Tidy codec := by
  cases event with
  | ingest principal body now =>
      rw [step, ingest_content]
      exact h
  | createContentRequest principal taskRef parts expiresAtMs request command now =>
      rw [step]
      cases hok : Server.createContentRequest db.tasks principal taskRef parts expiresAtMs request
          command now db.content with
      | error status => exact h
      | ok t =>
          rcases createContentRequest_eq_ok.mp hok with ⟨row, -, rfl⟩
          exact (h.withConversation _).of_eq rfl rfl rfl rfl
  | uploadManifests principal commandId manifests now =>
      exact tidy_receive (.uploadManifests principal commandId manifests now) h
  | uploadChunk principal commandId chunk now =>
      exact tidy_receive (.uploadChunk principal commandId chunk now) h
  | uploadResult principal commandId result now =>
      exact tidy_receive (.uploadResult principal commandId result now) h

/-- An event is a request that is handled. -/
theorem step_eq_handle (codec : Codec) (db : Database) (event : Event) :
    ∃ principal now freshRequest freshCommand call, step codec db event =
      (handle codec db principal now freshRequest freshCommand call).2 := by
  cases event with
  | ingest principal body now => exact ⟨principal, now, .v7 0, .v7 0, .ingest body, rfl⟩
  | createContentRequest principal taskRef parts expiresAtMs requestId commandId now =>
      refine ⟨principal, now, requestId, commandId,
        .createContentRequest taskRef parts expiresAtMs, ?_⟩
      rw [step, handle]
      cases Server.createContentRequest db.tasks principal taskRef parts expiresAtMs requestId
        commandId now db.content <;> rfl
  | uploadManifests principal commandId manifests now =>
      refine ⟨principal, now, .v7 0, .v7 0, .uploadManifests commandId manifests, ?_⟩
      rw [step, handle]
      cases Server.uploadManifests principal commandId manifests now db.content <;> rfl
  | uploadChunk principal commandId chunk now =>
      refine ⟨principal, now, .v7 0, .v7 0, .uploadChunk commandId chunk, ?_⟩
      rw [step, handle]
      cases Server.uploadChunk codec principal commandId chunk now db.content <;> rfl
  | uploadResult principal commandId result now =>
      refine ⟨principal, now, .v7 0, .v7 0, .uploadResult commandId result, ?_⟩
      rw [step, handle]
      cases Server.uploadResult principal commandId result now db.content <;> rfl

theorem paired_step (h : db.content.Paired) (event : Event) :
    (step codec db event).content.Paired := by
  rcases step_eq_handle codec db event with ⟨principal, now, request, command, call, heq⟩
  rw [heq]
  exact paired_change h (change_handle codec db principal now request command call)

end Steps

end Codexwatch.Server
