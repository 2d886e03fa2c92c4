import Codexwatch.Server.Decisions
import Codexwatch.Server.Integrity

/-!
# Fulfilled content requests

A request is `stored` when as many objects are linked to it as it lists parts, or when
the client says so. Neither looks at the parts: two objects for the same part count
twice, a part listed twice needs two objects, and a result may come before the content.

## Main definitions

* `Covered`, `Arrived` — the content of the parts is stored, or has been sent.
* `Effect` — what a post does to the tables.
* `Telling` — where the count and the word of the client agree with the content.
* `fulfils_run_iff` — which runs of posts store the requests whose content is there, and no others.
-/
namespace Codexwatch.Server

open Protocol Relational Check ContentTables

/-! ## Posts of the client -/

inductive Post
  | uploadManifests (principal : Principal) (commandId : Uuid)
      (manifests : List ContentObjectManifest) (now : TimestampMs)
  | uploadChunk (principal : Principal) (commandId : Uuid) (chunk : ContentUploadChunk)
      (now : TimestampMs)
  | uploadResult (principal : Principal) (commandId : Uuid) (result : ContentUploadResult)
      (now : TimestampMs)

def Post.event : Post → Event
  | .uploadManifests principal commandId manifests now =>
      .uploadManifests principal commandId manifests now
  | .uploadChunk principal commandId chunk now => .uploadChunk principal commandId chunk now
  | .uploadResult principal commandId result now => .uploadResult principal commandId result now

def receive (codec : Codec) (db : Database) (post : Post) : Database := step codec db post.event

namespace ContentTables

/-- Each part has a link of the request whose manifest names it, and the object is there. -/
def Covered (t : ContentTables) (requestId : Uuid) (parts : List ContentPart) : Prop :=
  ∀ part ∈ parts, ∃ sha link, t.contentLinks.get? (requestId, sha) = some link ∧
    link.manifestJson.part = part ∧ (t.contentObjects.get? sha).isSome

/-- A stored request is covered. -/
def Backed (t : ContentTables) : Prop :=
  ∀ requestId row, t.contentRequests.get? requestId = some row → row.status = .stored →
    t.Covered requestId row.partsJson

def HasChunks (t : ContentTables) (requestId : Uuid) (sha : String) (n : ℕ) : Prop :=
  ∀ i < n, (t.contentChunks.get? (requestId, sha, i)).isSome

/-- Each part has a manifest of the request, and all its chunks. -/
def Arrived (t : ContentTables) (requestId : Uuid) (parts : List ContentPart) : Prop :=
  ∀ part ∈ parts, ∃ sha row, t.contentManifests.get? (requestId, sha) = some row ∧
    row.manifestJson.part = part ∧ t.HasChunks requestId sha row.manifestJson.chunkCount

/-- Each part is the one of the manifest, or a link of the request names it. -/
def NamedWith (t : ContentTables) (request : ContentRequest) (manifest : ContentObjectManifest) :
    Prop :=
  ∀ part ∈ request.parts, part = manifest.part ∨
    ∃ sha link, t.contentLinks.get? (request.requestId, sha) = some link ∧
      link.manifestJson.part = part

/-- The number of links of the request, with one for this object. -/
def linksWith (t : ContentTables) (requestId : Uuid) (sha : String) : ℕ :=
  t.linkedObjectCount requestId + if (t.contentLinks.get? (requestId, sha)).isSome then 0 else 1

end ContentTables

/-- After the post the stored requests are covered, and one whose content it completes is
stored. -/
structure Fulfils (codec : Codec) (db : Database) (post : Post) : Prop where
  backed : (receive codec db post).content.Backed
  stored : ∀ requestId row,
    (receive codec db post).content.contentRequests.get? requestId = some row →
      ¬ db.content.Arrived requestId row.partsJson →
      (receive codec db post).content.Arrived requestId row.partsJson → row.status = .stored

/-- The client reports only what is stored, and an object that is stored makes the links as many
as the parts exactly when it makes them name the parts. -/
def Telling (codec : Codec) (db : Database) : Post → Prop
  | .uploadManifests .. => True
  | .uploadChunk principal commandId chunk now =>
      ∀ request manifest t₁ assembled uncompressed,
        Finishes codec principal commandId chunk now db.content request manifest t₁ assembled
          uncompressed →
        ¬ db.content.Covered request.requestId request.parts →
        (request.parts.length ≤ db.content.linksWith request.requestId chunk.objectSha256 ↔
          db.content.NamedWith request manifest)
  | .uploadResult principal commandId result _ =>
      ∀ request, principal.role.canIngest →
        db.content.loadCommandRequest commandId principal.clientId = some request →
        request.requestId = result.requestId → result.status = .stored →
        db.content.Covered request.requestId request.parts

/-! ## What a post does -/

/-- The branches of the three handlers. -/
inductive Effect (codec : Codec) (t : ContentTables) : Post → ContentTables → Prop
  | refused (post : Post) : Effect codec t post t
  | expired (post : Post) (requestId : Uuid) (now : TimestampMs) :
      Effect codec t post (t.completeRequestAndCommand requestId .contentExpired now)
  | announced {principal commandId manifests now request}
      (h : t.AcceptsManifests principal commandId manifests now request) :
      Effect codec t (.uploadManifests principal commandId manifests now)
        (t.insertManifests manifests request.clientId now)
  | kept {principal commandId chunk now request manifest duplicate t₁}
      (h : AcceptsChunk codec principal commandId chunk now t request manifest)
      (hupsert : t.upsertChunkRow chunk now = .ok (duplicate, t₁))
      (hlacking :
        t₁.isObjectComplete chunk.requestId chunk.objectSha256 chunk.chunkCount = false) :
      Effect codec t (.uploadChunk principal commandId chunk now) t₁
  | finished {principal commandId chunk now request manifest t₁ assembled uncompressed}
      (h : Finishes codec principal commandId chunk now t request manifest t₁ assembled
        uncompressed) :
      Effect codec t (.uploadChunk principal commandId chunk now)
        (t₁.storeObject request manifest assembled uncompressed now)
  | decided {principal commandId result now request}
      (hrole : principal.role.canIngest)
      (hload : t.loadCommandRequest commandId principal.clientId = some request)
      (hid : request.requestId = result.requestId) :
      Effect codec t (.uploadResult principal commandId result now)
        (t.completeRequestAndCommand result.requestId (requestStatusOf result.status) now)

theorem effect_receive (codec : Codec) (db : Database) (post : Post) :
    Effect codec db.content post (receive codec db post).content := by
  cases post with
  | uploadManifests principal commandId manifests now =>
      rw [receive, Post.event, step]
      cases hreply : uploadManifests principal commandId manifests now db.content with
      | error status => exact .refused _
      | ok t =>
          rcases uploadManifests_eq_ok.mp hreply with
            ⟨request, haccepts, rfl⟩ | ⟨request, -, -, -, -, rfl⟩
          · exact .announced haccepts
          · exact .expired _ _ _
  | uploadChunk principal commandId chunk now =>
      rw [receive, Post.event, step]
      cases hreply : uploadChunk codec principal commandId chunk now db.content with
      | error status => exact .refused _
      | ok r =>
          rcases uploadChunk_eq_ok.mp hreply with
            ⟨request, manifest, haccepts, duplicate, t₁, hupsert, hfinish⟩ |
            ⟨request, -, -, -, -, -, rfl⟩
          · rcases finishObject_eq_ok.mp hfinish with
              ⟨hlacking, rfl⟩ | ⟨hcomplete, assembled, uncompressed, hassembled, hdecode, hsha,
                hlen, hlen', rfl⟩
            · exact .kept haccepts hupsert hlacking
            · exact .finished ⟨haccepts, ⟨duplicate, hupsert⟩, hcomplete, hassembled, hdecode,
                hsha, hlen, hlen'⟩
          · exact .expired _ _ _
  | uploadResult principal commandId result now =>
      rw [receive, Post.event, step]
      cases hreply : uploadResult principal commandId result now db.content with
      | error status => exact .refused _
      | ok t =>
          rcases uploadResult_eq_ok.mp hreply with ⟨hrole, request, hload, hid, rfl⟩
          exact .decided hrole hload hid

/-! ## Chunks, manifests and links belong together -/

namespace ContentTables

/-- Chunks are those of a manifest, and a link is that of a manifest whose chunks are all there. -/
structure Attributed (t : ContentTables) : Prop where
  counted : ∀ key row, t.contentManifests.get? key = some row → row.manifestJson.chunkCount ≠ 0
  announced : ∀ requestId sha i, (t.contentChunks.get? (requestId, sha, i)).isSome →
    ∃ row, t.contentManifests.get? (requestId, sha) = some row ∧ i < row.manifestJson.chunkCount
  named : ∀ requestId sha link, t.contentLinks.get? (requestId, sha) = some link →
    ∃ row, t.contentManifests.get? (requestId, sha) = some row ∧
      row.manifestJson = link.manifestJson ∧ t.HasChunks requestId sha row.manifestJson.chunkCount

/-- A manifest whose chunks are all there has its link, if its key is none of these. -/
def LinkedExcept (t : ContentTables) (keys : List ObjectKey) : Prop :=
  ∀ requestId sha row, (requestId, sha) ∉ keys →
    t.contentManifests.get? (requestId, sha) = some row →
    t.HasChunks requestId sha row.manifestJson.chunkCount →
    (t.contentLinks.get? (requestId, sha)).isSome

/-- What every post leaves true. -/
structure Tidy (codec : Codec) (t : ContentTables) : Prop where
  whole : t.Whole codec
  attributed : t.Attributed
  linked : t.LinkedExcept []

variable {codec : Codec} {t t₁ : ContentTables} {clientId : String} {now : TimestampMs}
  {requestId : Uuid} {parts : List ContentPart}

/-- A link has its object. -/
theorem covered_iff (h : t.Whole codec) :
    t.Covered requestId parts ↔ ∀ part ∈ parts, ∃ sha link,
      t.contentLinks.get? (requestId, sha) = some link ∧ link.manifestJson.part = part := by
  constructor
  · intro hcovered part hpart
    rcases hcovered part hpart with ⟨sha, link, hlink, hnames, -⟩
    exact ⟨sha, link, hlink, hnames⟩
  · intro hlinked part hpart
    rcases hlinked part hpart with ⟨sha, link, hlink, hnames⟩
    have hobject := h.intact.references.stored requestId sha (by simp [hlink])
    exact ⟨sha, link, hlink, hnames, hobject⟩

/-- What has been sent for the parts is what is stored of them. -/
theorem Tidy.arrived_iff (h : t.Tidy codec) :
    t.Arrived requestId parts ↔ t.Covered requestId parts := by
  rw [covered_iff h.whole]
  constructor
  · intro harrived part hpart
    rcases harrived part hpart with ⟨sha, row, hrow, hnames, hchunks⟩
    have hlinked := h.linked requestId sha row (by simp) hrow hchunks
    rcases Option.isSome_iff_exists.mp hlinked with ⟨link, hlink⟩
    rcases h.attributed.named requestId sha link hlink with ⟨row', hrow', hsame, -⟩
    cases hrow.symm.trans hrow'
    exact ⟨sha, link, hlink, by rw [← hsame, hnames]⟩
  · intro hcovered part hpart
    rcases hcovered part hpart with ⟨sha, link, hlink, hnames⟩
    rcases h.attributed.named requestId sha link hlink with ⟨row, hrow, hsame, hchunks⟩
    exact ⟨sha, row, hrow, by rw [hsame, hnames], hchunks⟩

/-- Requests and commands do not matter. -/
theorem Tidy.complete (h : t.Tidy codec) (requestId : Uuid) (status : RequestStatus)
    (now : TimestampMs) : (t.completeRequestAndCommand requestId status now).Tidy codec where
  whole := h.whole.of_eq rfl rfl rfl
  attributed := ⟨h.attributed.counted, h.attributed.announced, h.attributed.named⟩
  linked := h.linked

/-! ### Manifests -/

/-- A new manifest has no chunks yet. -/
theorem Tidy.insertManifest (h : t.Tidy codec) {manifest : ContentObjectManifest}
    (hvalid : manifest.Valid) (clientId : String) (now : TimestampMs) :
    (t.insertManifest manifest clientId now).Tidy codec := by
  have hkept : ∀ key row, t.contentManifests.get? key = some row →
      (t.insertManifest manifest clientId now).contentManifests.get? key = some row := by
    intro key row hrow
    rw [get?_insertManifest]
    split <;> simp [hrow]
  have hrows : ∀ key row,
      (t.insertManifest manifest clientId now).contentManifests.get? key = some row →
      t.contentManifests.get? key = some row ∨
        t.contentManifests.get? key = none ∧ row.manifestJson = manifest := by
    intro key row hrow
    rw [get?_insertManifest] at hrow
    split at hrow
    · cases hold : t.contentManifests.get? key with
      | none => exact .inr ⟨rfl, by simp [← Option.some.inj hrow, hold]⟩
      | some old => exact .inl (by simpa [hold] using hrow)
    · exact .inl hrow
  refine ⟨h.whole.insertManifest manifest clientId now, ⟨?_, ?_, ?_⟩, ?_⟩
  · intro key row hrow
    rcases hrows key row hrow with hold | ⟨-, hnew⟩
    · exact h.attributed.counted key row hold
    · rw [hnew]
      exact hvalid.chunkCount
  · intro requestId sha i hchunk
    rcases h.attributed.announced requestId sha i hchunk with ⟨row, hrow, hi⟩
    exact ⟨row, hkept _ row hrow, hi⟩
  · intro requestId sha link hlink
    rcases h.attributed.named requestId sha link hlink with ⟨row, hrow, hsame⟩
    exact ⟨row, hkept _ row hrow, hsame⟩
  · intro requestId sha row hkey hrow hchunks
    rcases hrows _ row hrow with hold | ⟨hnone, hnew⟩
    · exact h.linked requestId sha row hkey hold hchunks
    · rw [hnew] at hchunks
      rcases h.attributed.announced requestId sha 0
        (hchunks 0 (Nat.pos_of_ne_zero hvalid.chunkCount)) with ⟨old, hold, -⟩
      rw [hnone] at hold
      cases hold

theorem Tidy.insertManifests (h : t.Tidy codec) {manifests : List ContentObjectManifest}
    (hvalid : ∀ m ∈ manifests, m.Valid) (clientId : String) (now : TimestampMs) :
    (t.insertManifests manifests clientId now).Tidy codec := by
  induction manifests generalizing t with
  | nil => exact h
  | cons m manifests ih =>
      exact ih (h.insertManifest (hvalid m (by simp)) clientId now) fun m' hm' =>
        hvalid m' (by simp [hm'])

/-! ### Chunks -/

/-- A chunk row changes nothing else, and adds its own key. -/
theorem upsertChunkRow_frame {chunk : ContentUploadChunk} {duplicate : Bool}
    (h : t.upsertChunkRow chunk now = .ok (duplicate, t₁)) :
    t₁.contentManifests = t.contentManifests ∧ t₁.contentLinks = t.contentLinks ∧
      t₁.contentObjects = t.contentObjects ∧
      ∀ key, (t₁.contentChunks.get? key).isSome ↔
        key = (chunk.requestId, chunk.objectSha256, chunk.chunkIndex) ∨
          (t.contentChunks.get? key).isSome := by
  rcases upsertChunkRow_eq_ok.mp h with ⟨row, hrow, -, -, -, heq⟩ | ⟨hnone, -, heq⟩
  · cases heq
    refine ⟨rfl, rfl, rfl, fun key => ⟨.inr, ?_⟩⟩
    rintro (rfl | hsome)
    · simp [hrow]
    · exact hsome
  · cases heq
    refine ⟨rfl, rfl, rfl, fun key => ?_⟩
    rw [insertChunk, Table.get?_put]
    split <;> simp [*]

/-- The chunks of a manifest are all there when its object is complete. -/
theorem Attributed.isObjectComplete_iff (h : t.Attributed) {sha : String} {row : ManifestRow}
    (hrow : t.contentManifests.get? (requestId, sha) = some row) :
    t.isObjectComplete requestId sha row.manifestJson.chunkCount = true ↔
      t.HasChunks requestId sha row.manifestJson.chunkCount := by
  rw [isObjectComplete_eq_true]
  constructor
  · intro hall i hi
    exact (hall i).mpr hi
  · intro hall i
    refine ⟨fun hchunk => ?_, hall i⟩
    rcases h.announced requestId sha i hchunk with ⟨row', hrow', hi⟩
    cases hrow.symm.trans hrow'
    exact hi

/-- A chunk of a manifest may complete its object, and no other. -/
theorem Tidy.upsertChunkRow (h : t.Tidy codec) {chunk : ContentUploadChunk} {duplicate : Bool}
    {row : ManifestRow} (hupsert : t.upsertChunkRow chunk now = .ok (duplicate, t₁))
    (hrow : t.contentManifests.get? (chunk.requestId, chunk.objectSha256) = some row)
    (hindex : chunk.chunkIndex < row.manifestJson.chunkCount) :
    t₁.Attributed ∧ t₁.LinkedExcept [(chunk.requestId, chunk.objectSha256)] := by
  rcases upsertChunkRow_frame hupsert with ⟨hmanifests, hlinks, -, hchunks⟩
  refine ⟨⟨?_, ?_, ?_⟩, ?_⟩
  · rw [hmanifests]
    exact h.attributed.counted
  · intro requestId sha i hchunk
    rw [hmanifests]
    rcases (hchunks _).mp hchunk with heq | hold
    · cases heq
      exact ⟨row, hrow, hindex⟩
    · exact h.attributed.announced requestId sha i hold
  · intro requestId sha link hlink
    rw [hlinks] at hlink
    rw [hmanifests]
    rcases h.attributed.named requestId sha link hlink with ⟨row', hrow', hsame, hall⟩
    exact ⟨row', hrow', hsame, fun i hi => (hchunks _).mpr (.inr (hall i hi))⟩
  · intro requestId sha row' hother hrow' hall
    rw [hmanifests] at hrow'
    rw [hlinks]
    refine h.linked requestId sha row' (by simp) hrow' fun i hi => ?_
    refine ((hchunks _).mp (hall i hi)).resolve_left ?_
    rintro heq
    cases heq
    simp at hother

/-! ### Objects -/

section Store
variable (t : ContentTables) (request : ContentRequest) (manifest : ContentObjectManifest)
  (assembled uncompressed : Bytes) (now : TimestampMs)

theorem contentLinks_storeObject :
    (t.storeObject request manifest assembled uncompressed now).contentLinks =
      (t.upsertContentObject request manifest assembled uncompressed now).contentLinks := by
  rw [storeObject]
  split <;> rfl

/-- The links of an object that is stored are the old ones and its own. -/
theorem get?_contentLinks_storeObject (key : ObjectKey) :
    ((t.storeObject request manifest assembled uncompressed now).contentLinks.get? key).map
        ContentLinkRow.manifestJson =
      if key = (request.requestId, manifest.objectSha256) then some manifest
      else (t.contentLinks.get? key).map ContentLinkRow.manifestJson := by
  rw [contentLinks_storeObject, upsertContentObject, Table.get?_upsert]
  split
  · rename_i hkey
    rw [← hkey]
    cases t.contentLinks.get? key <;> rfl
  · rfl

end Store

/-- An object whose chunks are all there is linked when it is stored. -/
theorem tidy_storeObject {request : ContentRequest} {manifest : ContentObjectManifest}
    {assembled uncompressed : Bytes} {row : ManifestRow} (h : t.Attributed)
    (hlinked : t.LinkedExcept [(request.requestId, manifest.objectSha256)])
    (hrow : t.contentManifests.get? (request.requestId, manifest.objectSha256) = some row)
    (hmanifest : row.manifestJson = manifest)
    (hcomplete : t.isObjectComplete request.requestId manifest.objectSha256 manifest.chunkCount)
    (hwhole : (t.storeObject request manifest assembled uncompressed now).Whole codec) :
    (t.storeObject request manifest assembled uncompressed now).Tidy codec := by
  rcases storeObject_frame t request manifest assembled uncompressed now with
    ⟨hmanifests, hchunks⟩
  have hlinks := get?_contentLinks_storeObject t request manifest assembled uncompressed now
  refine ⟨hwhole, ⟨?_, ?_, ?_⟩, ?_⟩
  · rw [hmanifests]
    exact h.counted
  · rw [hmanifests, hchunks]
    exact h.announced
  · intro requestId sha link hlink
    have hmap := hlinks (requestId, sha)
    rw [hlink, Option.map_some] at hmap
    simp only [HasChunks, hmanifests, hchunks]
    split at hmap
    · rename_i hkey
      cases hkey
      rw [Option.some.injEq] at hmap
      subst hmanifest
      exact ⟨row, hrow, hmap.symm, (h.isObjectComplete_iff hrow).mp hcomplete⟩
    · rcases Option.map_eq_some_iff.mp hmap.symm with ⟨old, hold, hsame⟩
      rcases h.named requestId sha old hold with ⟨row', hrow', hnamed, hall⟩
      exact ⟨row', hrow', hnamed.trans hsame, hall⟩
  · intro requestId sha row' _ hrow' hall
    simp only [HasChunks, hmanifests, hchunks] at hrow' hall
    rw [← Option.isSome_map, hlinks]
    split
    · rfl
    · rename_i hkey
      rw [Option.isSome_map]
      exact hlinked requestId sha row' (by simpa using hkey) hrow' hall

end ContentTables

/-- The manifest that a chunk is accepted for, as a row. -/
theorem AcceptsChunk.exists_row {codec : Codec} {t : ContentTables} {principal : Principal}
    {commandId : Uuid} {chunk : ContentUploadChunk} {now : TimestampMs} {request : ContentRequest}
    {manifest : ContentObjectManifest}
    (h : AcceptsChunk codec principal commandId chunk now t request manifest) :
    ∃ row, t.contentManifests.get? (chunk.requestId, chunk.objectSha256) = some row ∧
      row.manifestJson = manifest ∧ chunk.chunkIndex < row.manifestJson.chunkCount := by
  rcases Option.map_eq_some_iff.mp h.stored with ⟨row, hrow, hmanifest⟩
  refine ⟨row, h.requestId ▸ hrow, hmanifest, ?_⟩
  rw [hmanifest, h.chunkCount]
  exact h.valid.chunkIndex

/-- A post leaves chunks, manifests and links in order. -/
theorem Effect.tidy {codec : Codec} {t t' : ContentTables} {post : Post}
    (heffect : Effect codec t post t') (h : t.Tidy codec) (hwhole : t'.Whole codec) :
    t'.Tidy codec := by
  cases heffect with
  | refused => exact h
  | expired => exact h.complete _ _ _
  | decided => exact h.complete _ _ _
  | announced haccepts =>
      exact h.insertManifests (fun m hm => (haccepts.valid m hm).1) _ _
  | @kept principal commandId chunk now request manifest duplicate t₁ haccepts hupsert hlacking =>
      rcases haccepts.exists_row with ⟨row, hrow, rfl, hindex⟩
      rcases h.upsertChunkRow hupsert hrow hindex with ⟨hattributed, hlinked⟩
      rcases upsertChunkRow_frame hupsert with ⟨hmanifests, -, -, -⟩
      refine ⟨hwhole, hattributed, fun requestId sha row' _ hrow' hall => ?_⟩
      by_cases hkey : (requestId, sha) = (chunk.requestId, chunk.objectSha256)
      · cases hkey
        cases hrow.symm.trans (hmanifests ▸ hrow')
        rw [← hattributed.isObjectComplete_iff hrow', haccepts.chunkCount, hlacking] at hall
        cases hall
      · exact hlinked requestId sha row' (by simpa using hkey) hrow' hall
  | @finished principal commandId chunk now request manifest t₁ assembled uncompressed hfinishes =>
      rcases hfinishes.accepts.exists_row with ⟨row, hrow, hmanifest, hindex⟩
      rcases hfinishes.upserted with ⟨duplicate, hupsert⟩
      rcases h.upsertChunkRow hupsert hrow hindex with ⟨hattributed, hlinked⟩
      rcases upsertChunkRow_frame hupsert with ⟨hmanifests, -, -, -⟩
      have hsha : manifest.objectSha256 = chunk.objectSha256 := by
        rw [← hmanifest]
        exact h.whole.keyed _ row hrow
      have hcomplete := hfinishes.complete
      rw [← hfinishes.accepts.chunkCount, ← hfinishes.accepts.requestId, ← hsha] at hcomplete
      rw [← hfinishes.accepts.requestId, ← hsha] at hrow hlinked
      exact tidy_storeObject hattributed hlinked (hmanifests ▸ hrow) hmanifest hcomplete hwhole

theorem tidy_receive {codec : Codec} {db : Database} (post : Post) (h : db.content.Tidy codec) :
    (receive codec db post).content.Tidy codec :=
  (effect_receive codec db post).tidy h (whole_step codec post.event h.whole)

/-! ## When a post fulfils -/

namespace ContentTables

variable {t t₁ : ContentTables} (request : ContentRequest) (manifest : ContentObjectManifest)
  (assembled uncompressed : Bytes) (now : TimestampMs)

theorem exists_row_of_loadCommandRequest {request : ContentRequest} {commandId : Uuid}
    {clientId : String}
    (h : t.loadCommandRequest commandId clientId = some request) :
    ∃ row, t.contentRequests.get? request.requestId = some row ∧
      row.partsJson = request.parts := by
  simp only [loadCommandRequest, Option.bind_eq_bind, Option.bind_eq_some_iff, Option.guard_eq_some',
    Option.pure_def, Option.some.injEq] at h
  rcases h with ⟨command, -, -, -, row, hrow, rfl⟩
  exact ⟨row, hrow, rfl⟩

/-- The count of the links after the object is linked. -/
theorem countsForAll_iff (hlinks : t₁.contentLinks = t.contentLinks) :
    countsForAll request manifest assembled uncompressed now t₁ = true ↔
      request.parts.length ≤ t.linksWith request.requestId manifest.objectSha256 := by
  have hcount : (t₁.upsertContentObject request manifest assembled uncompressed
      now).linkedObjectCount request.requestId =
        t.linksWith request.requestId manifest.objectSha256 := by
    have hself := Table.countWhere_eq_add t.contentLinks
      (fun key => decide (key.1 = request.requestId)) (request.requestId, manifest.objectSha256)
    simp only [linksWith, linkedObjectCount, upsertContentObject, Table.upsert, hlinks]
    rw [Table.countWhere_put t.contentLinks (fun key => decide (key.1 = request.requestId)), hself]
    cases (t.contentLinks.get? (request.requestId, manifest.objectSha256)).isSome <;> simp
  rw [countsForAll, hcount, decide_eq_true_eq]

/-- The row of the request, after an object is stored. -/
theorem get?_contentRequests_storeObject (t : ContentTables) (r : Uuid) :
    (t.storeObject request manifest assembled uncompressed now).contentRequests.get? r =
      if r = request.requestId then (t.contentRequests.get? r).map fun row =>
        if countsForAll request manifest assembled uncompressed now t then
          { row with status := .stored, outcome := some .stored, completedAtMs := some now }
        else { row with status := .partialUpload }
      else t.contentRequests.get? r := by
  rw [contentRequests_storeObject]
  split
  · rw [get?_completeRequest]
  · rw [Table.get?_modify]

end ContentTables

section Step
variable {codec : Codec} {db : Database} {post : Post}

/-- What is sent may be read as what is stored, before and after a post. -/
theorem fulfils_iff_covered (h : db.content.Tidy codec) :
    Fulfils codec db post ↔ (receive codec db post).content.Backed ∧
      ∀ requestId row,
        (receive codec db post).content.contentRequests.get? requestId = some row →
          ¬ db.content.Covered requestId row.partsJson →
          (receive codec db post).content.Covered requestId row.partsJson →
          row.status = .stored := by
  have hafter := tidy_receive post h
  constructor
  · intro ⟨hbacked, hstored⟩
    simp only [h.arrived_iff, hafter.arrived_iff] at hstored
    exact ⟨hbacked, hstored⟩
  · intro ⟨hbacked, hstored⟩
    refine ⟨hbacked, ?_⟩
    simp only [h.arrived_iff, hafter.arrived_iff]
    exact hstored

/-- A post that leaves the content has to leave every stored request covered. -/
theorem fulfils_of_same (h : db.content.Tidy codec)
    (hcovered : (receive codec db post).content.Covered = db.content.Covered)
    (hrows : ∀ requestId row,
      (receive codec db post).content.contentRequests.get? requestId = some row →
        row.status = .stored → db.content.Covered requestId row.partsJson) :
    Fulfils codec db post := by
  rw [fulfils_iff_covered h, hcovered]
  refine ⟨?_, fun requestId row _ hnot hnow => absurd hnow hnot⟩
  intro requestId row hrow hstored
  rw [hcovered]
  exact hrows requestId row hrow hstored

end Step

section Finished
variable {codec : Codec} {db : Database} {principal : Principal} {commandId : Uuid}
  {chunk : ContentUploadChunk} {now : TimestampMs} {request : ContentRequest}
  {manifest : ContentObjectManifest} {t₁ : ContentTables} {assembled uncompressed : Bytes}

theorem Finishes.objectSha256 (hfinishes : Finishes codec principal commandId chunk now db.content
      request manifest t₁ assembled uncompressed) (h : db.content.Tidy codec) :
    manifest.objectSha256 = chunk.objectSha256 := by
  rcases hfinishes.accepts.exists_row with ⟨row, hrow, rfl, -⟩
  exact h.whole.keyed _ row hrow

/-- The content that a chunk completes is one part of the request. -/
theorem Finishes.covered_iff (hfinishes : Finishes codec principal commandId chunk now db.content
      request manifest t₁ assembled uncompressed) (h : db.content.Tidy codec) (requestId : Uuid)
    (parts : List ContentPart) :
    (t₁.storeObject request manifest assembled uncompressed now).Covered requestId parts ↔
      ∀ part ∈ parts, (requestId = request.requestId ∧ part = manifest.part) ∨
        ∃ sha link, db.content.contentLinks.get? (requestId, sha) = some link ∧
          link.manifestJson.part = part := by
  rcases hfinishes.upserted with ⟨duplicate, hupsert⟩
  rcases upsertChunkRow_frame hupsert with ⟨-, hlinks, -, -⟩
  have hafter := tidy_receive (.uploadChunk principal commandId chunk now) h
  rw [receive, Post.event, content_of_finishes hfinishes] at hafter
  have hget := get?_contentLinks_storeObject t₁ request manifest assembled uncompressed now
  rw [hlinks] at hget
  rw [ContentTables.covered_iff hafter.whole]
  refine forall₂_congr fun part _ => ?_
  constructor
  · rintro ⟨sha, link, hlink, rfl⟩
    have hmap := hget (requestId, sha)
    rw [hlink, Option.map_some] at hmap
    split at hmap
    · rename_i hkey
      rw [Option.some.injEq] at hmap
      exact .inl ⟨(Prod.mk.inj hkey).1, by rw [hmap]⟩
    · rcases Option.map_eq_some_iff.mp hmap.symm with ⟨old, hold, hsame⟩
      exact .inr ⟨sha, old, hold, by rw [hsame]⟩
  · rintro (⟨rfl, rfl⟩ | ⟨sha, old, hold, rfl⟩)
    · have hmap := hget (request.requestId, manifest.objectSha256)
      rw [if_pos rfl] at hmap
      rcases Option.map_eq_some_iff.mp hmap with ⟨link, hlink, hsame⟩
      exact ⟨_, link, hlink, by rw [hsame]⟩
    · have hmap := hget (requestId, sha)
      have hmanifest : (requestId, sha) = (request.requestId, manifest.objectSha256) →
          manifest = old.manifestJson := by
        intro hkey
        rcases hfinishes.accepts.exists_row with ⟨row, hrow, rfl, -⟩
        rcases h.attributed.named requestId sha old hold with ⟨row', hrow', hsame, -⟩
        rw [hkey, hfinishes.accepts.requestId, hfinishes.objectSha256 h] at hrow'
        cases hrow.symm.trans hrow'
        exact hsame
      have hnamed : ((t₁.storeObject request manifest assembled uncompressed now).contentLinks.get?
          (requestId, sha)).map ContentLinkRow.manifestJson = some old.manifestJson := by
        rw [hmap, hold, Option.map_some]
        split
        · rename_i hkey
          rw [hmanifest hkey]
        · rfl
      rcases Option.map_eq_some_iff.mp hnamed with ⟨link, hlink, hsame⟩
      exact ⟨sha, link, hlink, by rw [hsame]⟩

/-- A chunk that completes an object fulfils exactly when the count agrees with the parts, unless
they were all there before. -/
theorem Finishes.fulfils_iff (hfinishes : Finishes codec principal commandId chunk now db.content
      request manifest t₁ assembled uncompressed) (h : db.content.Tidy codec)
    (hbacked : db.content.Backed) :
    Fulfils codec db (.uploadChunk principal commandId chunk now) ↔
      (¬ db.content.Covered request.requestId request.parts →
        (request.parts.length ≤ db.content.linksWith request.requestId chunk.objectSha256 ↔
          db.content.NamedWith request manifest)) := by
  rcases hfinishes.upserted with ⟨duplicate, hupsert⟩
  rcases upsertChunkRow_frame hupsert with ⟨-, hlinks, -, -⟩
  rcases exists_row_of_loadCommandRequest hfinishes.accepts.command with ⟨row, hrow, hparts⟩
  have hcount := countsForAll_iff request manifest assembled uncompressed now hlinks
  rw [hfinishes.objectSha256 h] at hcount
  have hself : (t₁.storeObject request manifest assembled uncompressed now).Covered
      request.requestId request.parts ↔ db.content.NamedWith request manifest := by
    rw [hfinishes.covered_iff h]
    simp [NamedWith]
  have hother : ∀ requestId parts, requestId ≠ request.requestId →
      ((t₁.storeObject request manifest assembled uncompressed now).Covered requestId parts ↔
        db.content.Covered requestId parts) := by
    intro requestId parts hne
    rw [hfinishes.covered_iff h, ContentTables.covered_iff h.whole]
    simp [hne]
  have hnamed : db.content.Covered request.requestId request.parts →
      db.content.NamedWith request manifest := by
    rw [ContentTables.covered_iff h.whole]
    exact fun hcovered part hpart => .inr (hcovered part hpart)
  have hafter := get?_contentRequests_storeObject request manifest assembled uncompressed now t₁
  rw [contentRequests_upsertChunkRow hupsert] at hafter
  have hwritten : ∃ row', (t₁.storeObject request manifest assembled uncompressed
      now).contentRequests.get? request.requestId = some row' ∧ row'.partsJson = request.parts ∧
        (row'.status = .stored ↔ countsForAll request manifest assembled uncompressed now t₁) := by
    rw [hafter, if_pos rfl, hrow]
    cases countsForAll request manifest assembled uncompressed now t₁ <;> simp [hparts]
  rcases hwritten with ⟨row', hrow', hparts', hstatus⟩
  rw [hcount] at hstatus
  rw [fulfils_iff_covered h, receive, Post.event, content_of_finishes hfinishes]
  constructor
  · intro ⟨hbacked', hstored⟩ hnot
    have hcovered := hbacked' request.requestId row' hrow'
    have hdone := hstored request.requestId row' hrow'
    rw [hparts', hself, hstatus] at hcovered hdone
    exact ⟨hcovered, hdone hnot⟩
  · intro htelling
    constructor
    · intro requestId row'' hrow'' hstored
      by_cases hne : requestId = request.requestId
      · subst hne
        cases hrow'.symm.trans hrow''
        rw [hparts', hself]
        by_cases hcovered : db.content.Covered request.requestId request.parts
        · exact hnamed hcovered
        · exact (htelling hcovered).mp (hstatus.mp hstored)
      · rw [hafter, if_neg hne] at hrow''
        rw [hother requestId _ hne]
        exact hbacked requestId row'' hrow'' hstored
    · intro requestId row'' hrow'' hnot hnow
      by_cases hne : requestId = request.requestId
      · subst hne
        cases hrow'.symm.trans hrow''
        rw [hparts'] at hnot hnow
        exact hstatus.mpr ((htelling hnot).mpr (hself.mp hnow))
      · exact absurd ((hother requestId _ hne).mp hnow) hnot

end Finished

section Posts
variable {codec : Codec} {db : Database} {post : Post}

/-- A branch that stores no object, and reports only what is stored. -/
theorem fulfils_of_complete (h : db.content.Tidy codec) (hbacked : db.content.Backed)
    {requestId : Uuid} {status : RequestStatus} {now : TimestampMs}
    (hafter : (receive codec db post).content =
      db.content.completeRequestAndCommand requestId status now)
    (hstatus : status = .stored → ∀ row, db.content.contentRequests.get? requestId = some row →
      db.content.Covered requestId row.partsJson) : Fulfils codec db post := by
  refine fulfils_of_same h (by rw [hafter]; rfl) fun r row' hrow' hstored => ?_
  rw [hafter, get?_completeRequest] at hrow'
  split at hrow'
  · rename_i hr
    subst hr
    rcases Option.map_eq_some_iff.mp hrow' with ⟨row, hrow, rfl⟩
    exact hstatus hstored row hrow
  · exact hbacked r row' hrow' hstored

/-- A post of the client is telling exactly when it fulfils. -/
theorem telling_iff (h : db.content.Tidy codec) (hbacked : db.content.Backed) :
    Telling codec db post ↔ Fulfils codec db post := by
  have heffect := effect_receive codec db post
  generalize hafter : (receive codec db post).content = t' at heffect
  constructor
  · intro htelling
    cases heffect with
    | refused =>
        exact fulfils_of_same h (by rw [hafter]) fun r row hrow => hbacked r row (hafter ▸ hrow)
    | expired => exact fulfils_of_complete h hbacked hafter fun hstatus => by cases hstatus
    | @announced principal commandId manifests now request haccepts =>
        -- manifests are neither requests nor links nor objects
        have hsame : ∀ ms : List ContentObjectManifest, ∀ t : ContentTables,
            (t.insertManifests ms request.clientId now).contentLinks = t.contentLinks ∧
              (t.insertManifests ms request.clientId now).contentObjects = t.contentObjects := by
          intro ms
          induction ms with
          | nil => exact fun t => ⟨rfl, rfl⟩
          | cons m ms ih => exact fun t => ih (t.insertManifest m request.clientId now)
        refine fulfils_of_same h ?_ fun r row hrow hstored => ?_
        · rw [hafter]
          ext r parts
          simp only [Covered, (hsame manifests db.content).1, (hsame manifests db.content).2]
        · rw [hafter, (insertManifests_frame request.clientId now manifests).1] at hrow
          exact hbacked r row hrow hstored
    | kept haccepts hupsert _ =>
        rcases upsertChunkRow_frame hupsert with ⟨-, hlinks, hobjects, -⟩
        refine fulfils_of_same h ?_ fun r row hrow hstored => ?_
        · rw [hafter]
          ext r parts
          simp only [Covered, hlinks, hobjects]
        · rw [hafter, contentRequests_upsertChunkRow hupsert] at hrow
          exact hbacked r row hrow hstored
    | finished hfinishes =>
        exact (hfinishes.fulfils_iff h hbacked).mpr (htelling _ _ _ _ _ hfinishes)
    | @decided principal commandId result now request hrole hload hid =>
        refine fulfils_of_complete h hbacked hafter fun hstatus row hrow => ?_
        rcases exists_row_of_loadCommandRequest hload with ⟨row', hrow', hparts⟩
        rw [hid] at hrow'
        cases hrow.symm.trans hrow'
        have hreported : result.status = .stored := by
          cases hreport : result.status <;> simp [requestStatusOf, hreport] at hstatus ⊢
        rw [hparts, ← hid]
        exact htelling request hrole hload hid hreported
  · intro hfulfils
    cases post with
    | uploadManifests principal commandId manifests now => trivial
    | uploadChunk principal commandId chunk now =>
        intro request manifest t₁ assembled uncompressed hfinishes
        exact (hfinishes.fulfils_iff h hbacked).mp hfulfils
    | uploadResult principal commandId result now =>
        intro request hrole hload hid hreported
        rcases exists_row_of_loadCommandRequest hload with ⟨row, hrow, hparts⟩
        have hok : uploadResult principal commandId result now db.content = .ok _ :=
          uploadResult_eq_ok.mpr ⟨hrole, request, hload, hid, rfl⟩
        have hcontent : (receive codec db (.uploadResult principal commandId result now)).content =
            db.content.completeRequestAndCommand result.requestId .stored now := by
          rw [receive, Post.event, step, hok, hreported]
          rfl
        have hcovered := hfulfils.backed request.requestId
          { row with status := .stored, outcome := some .stored, completedAtMs := some now }
          (by rw [hcontent, get?_completeRequest, if_pos hid, hrow]; rfl) rfl
        rw [hcontent] at hcovered
        rw [← hparts]
        exact hcovered

end Posts

/-! ## Runs -/

/-- Requests may have been made, and nothing of their content has been sent. -/
structure Opened (t : ContentTables) : Prop where
  noManifests : t.contentManifests = .empty
  noChunks : t.contentChunks = .empty
  noObjects : t.contentObjects = .empty
  noLinks : t.contentLinks = .empty
  unstored : ∀ requestId row, t.contentRequests.get? requestId = some row → row.status ≠ .stored

theorem Opened.tidy {codec : Codec} {t : ContentTables} (h : Opened t) : t.Tidy codec where
  whole := whole_empty.of_eq h.noObjects h.noLinks h.noManifests
  attributed := ⟨by simp [h.noManifests], by simp [h.noChunks], by simp [h.noLinks]⟩
  linked := by simp [LinkedExcept, h.noManifests]

theorem Opened.backed {t : ContentTables} (h : Opened t) : t.Backed :=
  fun requestId row hrow hstored => absurd hstored (h.unstored requestId row hrow)

/-- Whatever the client posts for the requests that are open, exactly the telling runs store the
requests whose content is there, and only these. -/
theorem fulfils_run_iff (codec : Codec) {db : Database} (h : Opened db.content)
    (posts : List Post) :
    Run.Each (receive codec) (Telling codec) db posts ↔
      Run.Each (receive codec) (Fulfils codec) db posts := by
  apply Run.each_iff_of_invariant (I := fun db => db.content.Tidy codec ∧ db.content.Backed)
  · intro db post ⟨htidy, hbacked⟩ htelling
    exact ⟨tidy_receive post htidy, ((telling_iff htidy hbacked).mp htelling).backed⟩
  · intro db post ⟨htidy, hbacked⟩
    exact telling_iff htidy hbacked
  · exact ⟨h.tidy, h.backed⟩

/-! ## Two objects for one part -/

/-- A request for the request and the response of a task. -/
def bothParts : ContentRequest where
  requestId := .v7 0
  clientId := "a"
  taskRef := "s0:t:u"
  sessionId := "s0"
  threadId := "t"
  createdAtMs := 20
  expiresAtMs := none
  parts := [.request, .response]

def bothPartsDatabase : Database :=
  { Database.empty with content := withContentRequest ⟨.v7 0, bothParts⟩ .empty }

/-- The manifest of a request body of one byte. -/
def requestManifest (body : UInt8) : ContentObjectManifest :=
  { sampleManifest with part := .request, objectSha256 := Text.hexEncode (List.replicate 32 body) }

def requestChunk (body : UInt8) : ContentUploadChunk where
  requestId := .v7 0
  objectSha256 := Text.hexEncode (List.replicate 32 body)
  chunkIndex := 0
  chunkCount := 1
  payloadSha256 := Text.hexEncode (List.replicate 32 body)
  payloadZstd := [body]
  isLast := true

/-- Two request bodies are announced and sent, and no response. -/
def twoRequests : List Post :=
  [.uploadManifests ⟨"a", .client⟩ (.v7 0) [requestManifest 7, requestManifest 8] 30,
    .uploadChunk ⟨"a", .client⟩ (.v7 0) (requestChunk 7) 31,
    .uploadChunk ⟨"a", .client⟩ (.v7 0) (requestChunk 8) 32]

theorem opened_bothParts : Opened bothPartsDatabase.content where
  noManifests := rfl
  noChunks := rfl
  noObjects := rfl
  noLinks := rfl
  unstored := by
    intro requestId row hrow
    simp only [bothPartsDatabase, withContentRequest, Table.get?_put] at hrow
    split at hrow
    · cases hrow
      decide
    · cases hrow

def responseManifest : ContentObjectManifest := { requestManifest 8 with part := .response }

/-- A body is announced and sent for each part. -/
def eachPart : List Post :=
  [.uploadManifests ⟨"a", .client⟩ (.v7 0) [requestManifest 7, responseManifest] 30,
    .uploadChunk ⟨"a", .client⟩ (.v7 0) (requestChunk 7) 31,
    .uploadChunk ⟨"a", .client⟩ (.v7 0) (requestChunk 8) 32]

/-- What a chunk finishes is of the request and the manifest that the tables name. -/
theorem eq_of_finishes {codec : Codec} {principal : Principal} {commandId : Uuid}
    {chunk : ContentUploadChunk} {now : TimestampMs} {t t₁ : ContentTables}
    {request request' : ContentRequest} {manifest manifest' : ContentObjectManifest}
    {assembled uncompressed : Bytes}
    (h : Finishes codec principal commandId chunk now t request manifest t₁ assembled uncompressed)
    (hrequest : t.loadCommandRequest commandId principal.clientId = some request')
    (hmanifest : t.loadManifest chunk.requestId chunk.objectSha256 = some manifest') :
    request = request' ∧ manifest = manifest' := by
  have hstored := h.accepts.stored
  rw [h.accepts.requestId] at hstored
  exact ⟨Option.some.inj (h.accepts.command.symm.trans hrequest),
    Option.some.inj (hstored.symm.trans hmanifest)⟩

/-- The first chunk leaves the response unnamed, the second links as many objects as there are
parts. -/
theorem telling_eachPart :
    Run.Each (receive (.numbered [])) (Telling (.numbered [])) bothPartsDatabase eachPart := by
  have hfirst : let t := (Run.run (receive (.numbered [])) bothPartsDatabase
      (eachPart.take 1)).content
      t.loadCommandRequest (.v7 0) "a" = some bothParts ∧
        t.loadManifest (.v7 0) (requestChunk 7).objectSha256 = some (requestManifest 7) ∧
        t.contentLinks.rows = [] ∧ ¬ 2 ≤ t.linksWith (.v7 0) (requestChunk 7).objectSha256 := by
    decide +kernel
  have hsecond : let t := (Run.run (receive (.numbered [])) bothPartsDatabase
      (eachPart.take 2)).content
      t.loadCommandRequest (.v7 0) "a" = some bothParts ∧
        t.loadManifest (.v7 0) (requestChunk 8).objectSha256 = some responseManifest ∧
        (t.contentLinks.get? (.v7 0, (requestChunk 7).objectSha256)).map (·.manifestJson.part) =
          some .request ∧
        2 ≤ t.linksWith (.v7 0) (requestChunk 8).objectSha256 := by decide +kernel
  refine ⟨trivial, ?_, ?_, trivial⟩
  · intro request manifest t₁ assembled uncompressed hfinishes _
    obtain ⟨hrequest, hmanifest, hnone, hfew⟩ := hfirst
    obtain ⟨rfl, rfl⟩ := eq_of_finishes hfinishes hrequest hmanifest
    refine iff_of_false hfew fun hnamed => ?_
    obtain hpart | ⟨sha, link, hlink, -⟩ := hnamed .response (by decide)
    · cases hpart
    · have hmem : _ ∈ (Run.run (receive (.numbered [])) bothPartsDatabase
        (eachPart.take 1)).content.contentLinks.rows := Table.get?_eq_some.mp hlink
      rw [hnone] at hmem
      cases hmem
  · intro request manifest t₁ assembled uncompressed hfinishes _
    obtain ⟨hrequest, hmanifest, hpart, hmany⟩ := hsecond
    obtain ⟨rfl, rfl⟩ := eq_of_finishes hfinishes hrequest hmanifest
    obtain ⟨link, hlink, hrequested⟩ := Option.map_eq_some_iff.mp hpart
    refine iff_of_true hmany fun part hasked => ?_
    obtain rfl | rfl : part = .request ∨ part = .response := by simpa [bothParts] using hasked
    · exact .inr ⟨_, link, hlink, hrequested⟩
    · exact .inl rfl

/-- The request is stored with the second body. -/
theorem fulfils_run_iff_bothParts :
    (((Run.run (receive (.numbered [])) bothPartsDatabase eachPart).content.contentRequests.get?
        (.v7 0)).map ContentRequestRow.status = some .stored) ∧
      Run.Each (receive (.numbered [])) (Fulfils (.numbered [])) bothPartsDatabase eachPart :=
  ⟨by decide +kernel, (fulfils_run_iff (.numbered []) opened_bothParts eachPart).mp
    telling_eachPart⟩

/-- The request is stored with two request bodies and without the response. -/
theorem not_fulfils_twoRequests :
    ¬ Run.Each (receive (.numbered [])) (Fulfils (.numbered [])) bothPartsDatabase
      twoRequests := by
  intro h
  have hlast := (Run.each_iff_forall_prefix.mp h) (twoRequests.take 2) twoRequests[2]
    ⟨[], rfl⟩
  have hcovered := hlast.backed (.v7 0)
    { contentRequestRowOf bothParts with
      status := .stored, outcome := some .stored, completedAtMs := some 32 }
    (by decide +kernel) rfl
  rcases hcovered .response (by decide) with ⟨sha, link, hlink, hpart, -⟩
  have hrequests : ∀ r ∈ (receive (.numbered []) (Run.run (receive (.numbered []))
      bothPartsDatabase (twoRequests.take 2)) twoRequests[2]).content.contentLinks.rows,
      r.2.manifestJson.part = .request := by decide +kernel
  have hrequest := hrequests _ (Table.get?_eq_some.mp hlink)
  rw [hpart] at hrequest
  cases hrequest

end Codexwatch.Server
