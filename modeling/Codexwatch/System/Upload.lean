import Codexwatch.Lib.Run
import Codexwatch.Client.Blob
import Codexwatch.Protocol.Bodies
import Codexwatch.Server.Content

/-!
# Posting the chunks of a file

The manifest of an object is posted first, then its chunks, in any order and any
number of times. The invariant says which chunks the server holds; the object is
stored by the post that completes them, if the file decodes. A chunk whose body is
above the limit of the route never comes to its handler.

## Main definitions

* `Post`, `Schedule` — what is posted, and when that is complete.
* `answer` — the answer of the route: the limit on the body, then the handler.
* `Progress` — the state of an upload.
* `schedule_run` — what the server holds after a schedule.
-/
namespace Codexwatch.System.Transfer

open Protocol Client Relational Check
open Server (Principal StatusCode ContentTables uploadManifests uploadChunk)

/-! ## Posting -/

inductive Post
  | manifest (now : TimestampMs)
  | chunk (chunk : ContentUploadChunk) (now : TimestampMs)

def Post.now : Post → TimestampMs
  | .manifest now => now
  | .chunk _ now => now

section Server
variable (codec : Codec) (principal : Principal) (commandId : Uuid)
  (manifest : ContentObjectManifest)

/-- The body of a post: a list with the manifest, or the chunk. -/
def bodyOf : Post → String
  | .manifest _ => Json.array [manifest.json]
  | .chunk chunk _ => chunk.json

/-- The handler of the route. -/
def handle (t : ContentTables) : Post → Except StatusCode ContentTables
  | .manifest now => uploadManifests principal commandId [manifest] now t
  | .chunk chunk now => (uploadChunk codec principal commandId chunk now t).map Prod.snd

/-- The server's answer to a post. `build_router` sets no limit of its own, so the `Json`
extractor, which runs before the handler, refuses a body above the default one. -/
def answer (t : ContentTables) (post : Post) : Except StatusCode ContentTables :=
  if (bodyOf manifest post).utf8ByteSize ≤ DEFAULT_BODY_LIMIT then
    handle codec principal commandId manifest t post
  else .error .payloadTooLarge

def step (t : ContentTables) (post : Post) : ContentTables :=
  match answer codec principal commandId manifest t post with
  | .ok t => t
  | .error _ => t

/-- The post is answered neither `409` nor `400`. -/
def Welcome (t : ContentTables) (post : Post) : Prop :=
  answer codec principal commandId manifest t post ≠ .error .conflict ∧
    answer codec principal commandId manifest t post ≠ .error .badRequest

end Server

/-- The manifest is posted first, every chunk at some time, and all before the request expires. -/
structure Schedule (request : ContentRequest) (chunks : List ContentUploadChunk)
    (posts : List Post) : Prop where
  first : ∃ now rest, posts = .manifest now :: rest
  unexpired : ∀ post ∈ posts, request.expiredAt post.now = false
  own : ∀ chunk now, .chunk chunk now ∈ posts → chunk ∈ chunks
  covers : ∀ chunk ∈ chunks, ∃ now, .chunk chunk now ∈ posts

/-- The server knows the command, and has nothing of the object under its request. -/
structure Ready (principal : Principal) (commandId : Uuid) (request : ContentRequest)
    (objectSha256 : String) (t : ContentTables) : Prop where
  role : principal.role.canIngest
  command : t.loadCommandRequest commandId principal.clientId = some request
  noManifest : t.contentManifests.get? (request.requestId, objectSha256) = none
  noChunk : ∀ i, t.contentChunks.get? (request.requestId, objectSha256, i) = none

/-! ## The chunks of a file -/

section Chunks
variable {codec : Codec} {file : Bytes} {objectSha256 : String} {requestId : Uuid}

/-- The number of chunks that `load_chunks` makes of a file. -/
def pieces (file : Bytes) : ℕ := Chunks.divCeil file.length MAX_CONTENT_CHUNK_BYTES

theorem chunk_size_pos : 0 < MAX_CONTENT_CHUNK_BYTES := by decide

theorem pieces_pos (h : file ≠ []) : 0 < pieces file := by
  rw [pieces, Nat.pos_iff_ne_zero, ne_eq, Chunks.divCeil_eq_zero_iff chunk_size_pos]
  simpa using h

theorem chunkCount_eq_pieces (h : file ≠ []) (hsize : pieces file < 2 ^ 32) :
    chunkCount file.length = pieces file := by
  have hpos := pieces_pos h
  have hmax : max (pieces file) 1 = pieces file := by omega
  rw [chunkCount, ← pieces, hmax, Nat.mod_eq_of_lt hsize]

theorem chunkIndex_chunkOf (hsize : pieces file < 2 ^ 32) {i : ℕ} (hi : i < pieces file) :
    (BlobStore.chunkOf codec file objectSha256 requestId i).chunkIndex = i :=
  Nat.mod_eq_of_lt (hi.trans hsize)

/-- Every chunk of a file passes its validation, unless the count wraps. -/
theorem valid_chunkOf (hrequest : isUuidV7 requestId) (hsha : Text.isHexDigest objectSha256)
    (h : file ≠ []) (hsize : pieces file < 2 ^ 32) {i : ℕ} (hi : i < pieces file) :
    (BlobStore.chunkOf codec file objectSha256 requestId i).Valid codec where
  requestId := hrequest
  objectSha256 := hsha
  payloadSha256 := Text.isHexDigest_hexEncode (Vector.length_toList ..)
  chunkIndex := by
    rw [chunkIndex_chunkOf hsize hi]
    exact hi.trans_eq (chunkCount_eq_pieces h hsize).symm
  isLast := by
    rw [chunkIndex_chunkOf hsize hi]
    have hnext : (i + 1) % 2 ^ 32 = i + 1 := Nat.mod_eq_of_lt (by omega)
    simp only [BlobStore.chunkOf, hnext]
  payloadZstd := Chunks.length_piece_le ..
  payloadDigest := (Text.asciiLowercase_hexEncode _).symm

/-- Where the count wraps, some chunk is not valid. -/
theorem pieces_lt_of_valid (codec : Codec) (hvalid : ∀ i < pieces file,
    (BlobStore.chunkOf codec file objectSha256 requestId i).Valid codec) :
    pieces file < 2 ^ 32 := by
  by_contra hsize
  have hcount : chunkCount file.length < 2 ^ 32 := Nat.mod_lt _ (by decide)
  have hindex := (hvalid (chunkCount file.length) (by omega)).chunkIndex
  simp only [BlobStore.chunkOf] at hindex
  rw [Nat.mod_eq_of_lt hcount] at hindex
  exact absurd hindex (Nat.lt_irrefl _)

end Chunks

/-! ## An upload in progress -/

section Progress

/-- What the manifest says of the file, as far as the server relies on it. -/
structure Announces (request : ContentRequest) (manifest : ContentObjectManifest) (file : Bytes) :
    Prop where
  valid : manifest.Valid
  isPart : ContentTables.ManifestMatches request manifest
  nonempty : file ≠ []
  size : pieces file < 2 ^ 32
  chunkCount : manifest.chunkCount = pieces file
  compressedBytes : manifest.compressedBytes = file.length

/-- The file decompresses to what the manifest names. -/
def Decodes (codec : Codec) (manifest : ContentObjectManifest) (file : Bytes) : Prop :=
  ∃ uncompressed, codec.decodeAll file = some uncompressed ∧
    codec.sha256Hex uncompressed = Text.asciiLowercase manifest.objectSha256 ∧
    uncompressed.length = manifest.uncompressedBytes

variable (codec : Codec) (principal : Principal) (commandId : Uuid) (request : ContentRequest)
  (manifest : ContentObjectManifest) (file : Bytes)

/-- The chunk with the given number. -/
def chunkAt (i : ℕ) : ContentUploadChunk :=
  BlobStore.chunkOf codec file manifest.objectSha256 manifest.requestId i

/-- The server holds exactly the chunks numbered in `posted`, and no foreign manifest. -/
structure InFlight (t : ContentTables) (posted : Set ℕ) : Prop where
  command : t.loadCommandRequest commandId principal.clientId = some request
  fits : t.ManifestFits manifest
  bound : ∀ i ∈ posted, i < pieces file
  chunk : ∀ i ∈ posted, ∃ now,
    t.contentChunks.get? (manifest.requestId, manifest.objectSha256, i) =
      some (ContentTables.chunkRowOf (chunkAt codec manifest file i) now)
  noChunk : ∀ i, i ∉ posted →
    t.contentChunks.get? (manifest.requestId, manifest.objectSha256, i) = none

/-- The route takes the chunk with the given number. -/
def Fits (i : ℕ) : Prop := (chunkAt codec manifest file i).json.utf8ByteSize ≤ DEFAULT_BODY_LIMIT

/-- The manifest is stored, and the object as soon as its chunks are all there; until then the
objects are those from before. -/
structure Progress (objects : Relational.Table String Server.ContentObjectRow) (t : ContentTables)
    (posted : Set ℕ) : Prop where
  inFlight : InFlight codec principal commandId request manifest file t posted
  announced : t.loadManifest manifest.requestId manifest.objectSha256 = some manifest
  stored : (∀ i < pieces file, i ∈ posted) → ∃ row,
    t.contentObjects.get? manifest.objectSha256 = some row ∧ row.contentZstd = file
  unfinished : ¬ (∀ i < pieces file, i ∈ posted) → t.contentObjects = objects

variable {codec principal commandId request manifest file} {t t' : ContentTables}
  {posted : Set ℕ} {objects : Relational.Table String Server.ContentObjectRow}

theorem answer_of_fits (post : Post)
    (h : (bodyOf manifest post).utf8ByteSize ≤ DEFAULT_BODY_LIMIT) :
    answer codec principal commandId manifest t post =
      handle codec principal commandId manifest t post := if_pos h

/-- A chunk above the limit changes nothing. -/
theorem answer_of_not_fits {i : ℕ} (now : TimestampMs) (h : ¬ Fits codec manifest file i) :
    answer codec principal commandId manifest t (.chunk (chunkAt codec manifest file i) now) =
      .error .payloadTooLarge := if_neg h

/-- The rows of the object, before they are sorted. -/
theorem mem_chunkRows (h : InFlight codec principal commandId request manifest file t posted)
    {r : ℕ × Bytes} :
    r ∈ (t.contentChunks.rows.filter fun r => r.1.1 = manifest.requestId ∧
        r.1.2.1 = manifest.objectSha256).map (fun r => (r.1.2.2, r.2.payloadZstd)) ↔
      r.1 ∈ posted ∧ r.2 = Chunks.piece MAX_CONTENT_CHUNK_BYTES file r.1 := by
  rw [List.mem_map]
  constructor
  · intro ⟨⟨⟨id, sha, i⟩, row⟩, hmem, hr⟩
    rw [List.mem_filter, Table.mem_rows_iff] at hmem
    obtain ⟨hget, hkey⟩ := hmem
    simp only [decide_eq_true_eq] at hkey hget
    obtain ⟨rfl, rfl⟩ := hkey
    subst hr
    by_cases hi : i ∈ posted
    · obtain ⟨time, htime⟩ := h.chunk i hi
      obtain rfl := Option.some.inj (hget.symm.trans htime)
      exact ⟨hi, rfl⟩
    · rw [h.noChunk i hi] at hget
      cases hget
  · intro ⟨hi, hpayload⟩
    obtain ⟨time, htime⟩ := h.chunk r.1 hi
    refine ⟨_, List.mem_filter.mpr ⟨Table.get?_eq_some.mp htime, by simp⟩, ?_⟩
    exact Prod.ext rfl hpayload.symm

/-- The object is complete when every chunk was posted. -/
theorem isObjectComplete_iff
    (h : InFlight codec principal commandId request manifest file t posted) :
    t.isObjectComplete manifest.requestId manifest.objectSha256 (pieces file) = true ↔
      ∀ i < pieces file, i ∈ posted := by
  have hheld : ∀ i, (t.contentChunks.get? (manifest.requestId, manifest.objectSha256, i)).isSome ↔
      i ∈ posted := by
    intro i
    by_cases hi : i ∈ posted
    · rcases h.chunk i hi with ⟨now, hrow⟩
      simp [hrow, hi]
    · simp [h.noChunk i hi, hi]
  simp only [ContentTables.isObjectComplete_eq_true, hheld]
  constructor
  · intro hall i hi
    exact (hall i).mpr hi
  · intro hall i
    exact ⟨h.bound i, hall i⟩

/-- The chunks put together are the file. -/
theorem assembleObject_eq (h : InFlight codec principal commandId request manifest file t posted)
    (hall : ∀ i < pieces file, i ∈ posted) :
    t.assembleObject manifest.requestId manifest.objectSha256 (pieces file) = .ok file := by
  have hsorted := (isObjectComplete_iff h).mpr hall
  rw [ContentTables.isObjectComplete, decide_eq_true_eq] at hsorted
  have hrows : ∀ r ∈ t.chunksOf manifest.requestId manifest.objectSha256,
      r.2 = Chunks.piece MAX_CONTENT_CHUNK_BYTES file r.1 := by
    intro r hr
    rw [ContentTables.chunksOf, List.mem_insertionSort] at hr
    exact ((mem_chunkRows h).mp hr).2
  have hlength : (t.chunksOf manifest.requestId manifest.objectSha256).length = pieces file := by
    rw [← List.length_map (f := Prod.fst), hsorted, List.length_range]
  simp only [ContentTables.assembleObject, bind_eq_ok, exists_unit_and, ensure_eq_ok, pure_eq_ok]
  refine ⟨hlength, ?_⟩
  rw [Chunks.flatMap_snd_of_map_fst hrows hsorted]
  exact Chunks.flatMap_piece chunk_size_pos file

/-- The manifest is accepted, the first time and every other time. -/
theorem answer_manifest (now : TimestampMs) (hrole : principal.role.canIngest)
    (ha : Announces request manifest file)
    (h : InFlight codec principal commandId request manifest file t posted)
    (hnow : request.expiredAt now = false) :
    ∃ t', answer codec principal commandId manifest t (.manifest now) = .ok t' ∧
      InFlight codec principal commandId request manifest file t' posted ∧
      t'.loadManifest manifest.requestId manifest.objectSha256 = some manifest ∧
      t'.contentObjects = t.contentObjects := by
  have hfit : t.ManifestsFit [manifest] := ⟨by simpa using h.fits, by simp⟩
  have haccepts : t.AcceptsManifests principal commandId [manifest] now request :=
    ⟨hrole, h.command, by simp, hnow, by simpa using ⟨ha.valid, ha.isPart⟩, hfit⟩
  have hrow : ∀ row, (t.insertManifest manifest request.clientId now).contentManifests.get?
      (ContentTables.manifestKey manifest) = some row → row.manifestJson = manifest := by
    intro row hrow
    rw [ContentTables.get?_insertManifest, if_pos rfl, Option.some.injEq] at hrow
    cases hold : t.contentManifests.get? (ContentTables.manifestKey manifest) with
    | none => simp [← hrow, hold]
    | some old =>
        rw [← hrow, hold]
        exact h.fits old hold
  have hfits := ContentObjectManifest.utf8ByteSize_json_le ha.valid
  rw [answer_of_fits (.manifest now) hfits]
  refine ⟨_, Server.uploadManifests_eq_ok.mpr (.inl ⟨request, haccepts, rfl⟩), ?_, ?_, rfl⟩
  · exact ⟨h.command, hrow, h.bound, h.chunk, h.noChunk⟩
  · obtain ⟨row, hget⟩ := Option.isSome_iff_exists.mp (ContentTables.isSome_insertManifests
      (t := t) request.clientId now (.inr (by simp :
        ContentTables.manifestKey manifest ∈ [manifest].map ContentTables.manifestKey)))
    change ((t.insertManifests [manifest] request.clientId now).contentManifests.get?
      (ContentTables.manifestKey manifest)).map _ = _
    rw [hget, Option.map_some, hrow row hget]

/-- A chunk goes in, or is there already. -/
theorem upsertChunkRow_chunkAt (now : TimestampMs) (ha : Announces request manifest file)
    (h : InFlight codec principal commandId request manifest file t posted) {i : ℕ}
    (hi : i < pieces file) :
    ∃ duplicate t', t.upsertChunkRow (chunkAt codec manifest file i) now = .ok (duplicate, t') ∧
      InFlight codec principal commandId request manifest file t' (insert i posted) ∧
      t'.contentManifests = t.contentManifests ∧ t'.contentObjects = t.contentObjects := by
  have hindex : (chunkAt codec manifest file i).chunkIndex = i := chunkIndex_chunkOf ha.size hi
  by_cases hposted : i ∈ posted
  · obtain ⟨time, htime⟩ := h.chunk i hposted
    refine ⟨true, t, ContentTables.upsertChunkRow_eq_ok.mpr (.inl
      ⟨ContentTables.chunkRowOf (chunkAt codec manifest file i) time, ?_, rfl, rfl, rfl, rfl⟩),
      ?_, rfl, rfl⟩
    · rw [hindex]
      exact htime
    · rw [Set.insert_eq_of_mem hposted]
      exact h
  · have hcounts : ∀ row ∈ t.contentChunks.rows, row.1.1 = manifest.requestId →
        row.1.2.1 = manifest.objectSha256 →
        row.2.chunkCount = (chunkAt codec manifest file i).chunkCount := by
      intro ⟨⟨id, sha, j⟩, row⟩ hmem hid hsha
      obtain rfl : id = manifest.requestId := hid
      obtain rfl : sha = manifest.objectSha256 := hsha
      have hget := Table.get?_eq_some.mpr hmem
      by_cases hj : j ∈ posted
      · obtain ⟨time, htime⟩ := h.chunk j hj
        obtain rfl := Option.some.inj (hget.symm.trans htime)
        rfl
      · rw [h.noChunk j hj] at hget
        cases hget
    have hfree : t.contentChunks.get? ((chunkAt codec manifest file i).requestId,
        (chunkAt codec manifest file i).objectSha256,
        (chunkAt codec manifest file i).chunkIndex) = none := by
      rw [hindex]
      exact h.noChunk i hposted
    refine ⟨false, _, ContentTables.upsertChunkRow_eq_ok.mpr (.inr ⟨hfree, hcounts, rfl⟩), ?_, rfl, rfl⟩
    have hget : ∀ j, (t.insertChunk (chunkAt codec manifest file i) now).contentChunks.get?
        (manifest.requestId, manifest.objectSha256, j) =
          if j = i then some (ContentTables.chunkRowOf (chunkAt codec manifest file i) now)
          else t.contentChunks.get? (manifest.requestId, manifest.objectSha256, j) := by
      intro j
      rw [ContentTables.insertChunk, hindex, Table.get?_put]
      by_cases hj : j = i
      · simp [hj, chunkAt, BlobStore.chunkOf]
      · rw [if_neg hj, if_neg]
        intro hkey
        cases hkey
        exact hj rfl
    refine ⟨h.command, h.fits, ?_, ?_, ?_⟩
    · intro j hj
      obtain rfl | hj := hj
      · exact hi
      · exact h.bound j hj
    · intro j hj
      rw [hget]
      obtain rfl | hj := hj
      · exact ⟨now, by rw [if_pos rfl]⟩
      · obtain ⟨time, htime⟩ := h.chunk j hj
        have hne : j ≠ i := fun heq => hposted (heq ▸ hj)
        exact ⟨time, by rw [if_neg hne, htime]⟩
    · intro j hj
      rw [Set.mem_insert_iff, not_or] at hj
      rw [hget, if_neg hj.1]
      exact h.noChunk j hj.2

/-- What finishes the object: nothing is missing, and the content is right. -/
theorem finishObject_chunkAt (i : ℕ) (duplicate : Bool) (now : TimestampMs)
    (ha : Announces request manifest file)
    (h : InFlight codec principal commandId request manifest file t posted)
    (hstored : t.loadManifest manifest.requestId manifest.objectSha256 = some manifest)
    (hobjects : ¬ (∀ i < pieces file, i ∈ posted) → t.contentObjects = objects) :
    (∃ r t', Server.finishObject codec request manifest (chunkAt codec manifest file i) duplicate
        now t = .ok (r, t') ∧
      Progress codec principal commandId request manifest file objects t' posted) ∨
    (Server.finishObject codec request manifest (chunkAt codec manifest file i) duplicate now t =
        .error .badRequest ∧ ¬ Decodes codec manifest file) := by
  have hcount : (chunkAt codec manifest file i).chunkCount = pieces file :=
    chunkCount_eq_pieces ha.nonempty ha.size
  have hcomplete : t.isObjectComplete (chunkAt codec manifest file i).requestId
      (chunkAt codec manifest file i).objectSha256 (chunkAt codec manifest file i).chunkCount =
        true ↔ ∀ i < pieces file, i ∈ posted := by
    rw [hcount]
    exact isObjectComplete_iff h
  by_cases hall : ∀ i < pieces file, i ∈ posted
  · have hassembled : t.assembleObject (chunkAt codec manifest file i).requestId
        (chunkAt codec manifest file i).objectSha256 (chunkAt codec manifest file i).chunkCount =
          .ok file := by
      rw [hcount]
      exact assembleObject_eq h hall
    by_cases hdecodes : Decodes codec manifest file
    · left
      obtain ⟨uncompressed, hdecode, hsha, hlength⟩ := hdecodes
      refine ⟨_, _, Server.finishObject_eq_ok.mpr (.inr ⟨hcomplete.mpr hall, file, uncompressed,
        hassembled, hdecode, hsha, ha.compressedBytes.symm, hlength, rfl⟩), ?_⟩
      obtain ⟨hmanifests, hchunks⟩ := ContentTables.storeObject_frame t request manifest
        file uncompressed now
      refine ⟨⟨?_, ?_, h.bound, ?_, ?_⟩, ?_, fun _ => ContentTables.get?_storeObject,
        fun hnot => absurd hall hnot⟩
      · rw [ContentTables.loadCommandRequest_storeObject]
        exact h.command
      · rw [ContentTables.ManifestFits, hmanifests]
        exact h.fits
      · rw [hchunks]
        exact h.chunk
      · rw [hchunks]
        exact h.noChunk
      · rw [ContentTables.loadManifest, hmanifests]
        exact hstored
    · right
      refine ⟨?_, hdecodes⟩
      rw [Server.finishObject, if_pos (hcomplete.mpr hall), hassembled]
      cases hdecode : codec.decodeAll file with
      | none => simp [bind, Except.bind, required, hdecode]
      | some uncompressed =>
          by_cases hsha : codec.sha256Hex uncompressed = Text.asciiLowercase manifest.objectSha256
          · have hlength : uncompressed.length ≠ manifest.uncompressedBytes :=
              fun hlength => hdecodes ⟨uncompressed, hdecode, hsha, hlength⟩
            simp [bind, Except.bind, required, ensure, hdecode, hsha, hlength, chunkAt,
              BlobStore.chunkOf]
          · simp [bind, Except.bind, required, ensure, hdecode, hsha, chunkAt, BlobStore.chunkOf]
  · left
    have hincomplete := Bool.eq_false_of_not_eq_true fun htrue => hall (hcomplete.mp htrue)
    refine ⟨_, _, Server.finishObject_eq_ok.mpr (.inl ⟨hincomplete, rfl⟩), ?_⟩
    exact ⟨h, hstored, fun hall' => absurd hall' hall, hobjects⟩

/-- A chunk that fits is accepted, unless it completes a file that does not decode. -/
theorem answer_chunk (now : TimestampMs) (hrole : principal.role.canIngest)
    (ha : Announces request manifest file)
    (h : Progress codec principal commandId request manifest file objects t posted) {i : ℕ}
    (hi : i < pieces file) (hfits : Fits codec manifest file i)
    (hnow : request.expiredAt now = false) :
    (∃ t', answer codec principal commandId manifest t
        (.chunk (chunkAt codec manifest file i) now) = .ok t' ∧
      Progress codec principal commandId request manifest file objects t' (insert i posted)) ∨
    (answer codec principal commandId manifest t (.chunk (chunkAt codec manifest file i) now) =
        .error .badRequest ∧ ¬ Decodes codec manifest file) := by
  have hvalid : (chunkAt codec manifest file i).Valid codec :=
    valid_chunkOf ha.valid.requestId ha.valid.objectSha256 ha.nonempty ha.size hi
  have hannounced := h.announced
  rw [ha.isPart.requestId] at hannounced
  have haccepts : Server.AcceptsChunk codec principal commandId (chunkAt codec manifest file i) now
      t request manifest :=
    ⟨hrole, hvalid, h.inFlight.command, ha.isPart.requestId.symm, hnow, hannounced,
      ha.chunkCount.trans (chunkCount_eq_pieces ha.nonempty ha.size).symm⟩
  obtain ⟨duplicate, t₁, hupsert, hinFlight, hmanifests, hobjects⟩ :=
    upsertChunkRow_chunkAt now ha h.inFlight hi
  have hstored : t₁.loadManifest manifest.requestId manifest.objectSha256 = some manifest := by
    rw [ContentTables.loadManifest, hmanifests]
    exact h.announced
  have hunfinished : ¬ (∀ j < pieces file, j ∈ insert i posted) → t₁.contentObjects = objects := by
    intro hnot
    rw [hobjects]
    exact h.unfinished fun hall => hnot fun j hj => Set.mem_insert_of_mem i (hall j hj)
  rw [answer_of_fits (.chunk (chunkAt codec manifest file i) now) hfits, handle,
    Server.uploadChunk_of_accepts haccepts, hupsert]
  obtain ⟨r, t', hfinish, hprogress⟩ | ⟨hfinish, hdecodes⟩ :=
    finishObject_chunkAt i duplicate now ha hinFlight hstored hunfinished
  · exact .inl ⟨t', congrArg (Except.map Prod.snd) hfinish, hprogress⟩
  · exact .inr ⟨congrArg (Except.map Prod.snd) hfinish, hdecodes⟩

theorem chunkAt_inj (hsize : pieces file < 2 ^ 32) {i j : ℕ} (hi : i < pieces file)
    (hj : j < pieces file) (h : chunkAt codec manifest file i = chunkAt codec manifest file j) :
    i = j := by
  have hindex := congrArg ContentUploadChunk.chunkIndex h
  rwa [chunkAt, chunkAt, chunkIndex_chunkOf hsize hi, chunkIndex_chunkOf hsize hj] at hindex

theorem step_of_ok {post : Post} (h : answer codec principal commandId manifest t post = .ok t') :
    step codec principal commandId manifest t post = t' := by rw [step, h]

theorem step_of_error {post : Post} {status : StatusCode}
    (h : answer codec principal commandId manifest t post = .error status) :
    step codec principal commandId manifest t post = t := by rw [step, h]

theorem welcome_of_ok {post : Post}
    (h : answer codec principal commandId manifest t post = .ok t') :
    Welcome codec principal commandId manifest t post := by
  rw [Welcome, h]
  exact ⟨by simp, by simp⟩

/-- A post of the manifest or of the file's own chunks is accepted, unless it completes a file that
does not decode. A chunk that fits is with the server then. -/
theorem progress_step (hrole : principal.role.canIngest) (ha : Announces request manifest file)
    {post : Post}
    (h : Progress codec principal commandId request manifest file objects t posted)
    (hnow : request.expiredAt post.now = false)
    (hown : ∀ chunk now, post = .chunk chunk now →
      ∃ i < pieces file, chunkAt codec manifest file i = chunk)
    (hok : Decodes codec manifest file ∨ Welcome codec principal commandId manifest t post) :
    Welcome codec principal commandId manifest t post ∧
      ∃ posted', Progress codec principal commandId request manifest file objects
          (step codec principal commandId manifest t post) posted' ∧
        posted ⊆ posted' ∧ (∀ i ∈ posted', i ∈ posted ∨ Fits codec manifest file i) ∧
        ∀ i now, i < pieces file → Fits codec manifest file i →
          post = .chunk (chunkAt codec manifest file i) now → i ∈ posted' := by
  cases post with
  | manifest now =>
      obtain ⟨t', hanswer, hinFlight, hannounced, hobjects⟩ :=
        answer_manifest now hrole ha h.inFlight hnow
      have hprogress : Progress codec principal commandId request manifest file objects t' posted :=
        ⟨hinFlight, hannounced, fun hall => hobjects ▸ h.stored hall,
          fun hnot => hobjects.trans (h.unfinished hnot)⟩
      rw [step_of_ok hanswer]
      exact ⟨welcome_of_ok hanswer, posted, hprogress, fun _ hi => hi, fun _ hi => .inl hi,
        fun i now hi hifits hpost => nomatch hpost⟩
  | chunk chunk now =>
      obtain ⟨i, hi, rfl⟩ := hown chunk now rfl
      by_cases hifits : Fits codec manifest file i
      · obtain ⟨t', hanswer, hprogress⟩ | ⟨hanswer, hdecodes⟩ :=
          answer_chunk now hrole ha h hi hifits hnow
        · rw [step_of_ok hanswer]
          refine ⟨welcome_of_ok hanswer, insert i posted, hprogress, Set.subset_insert i posted,
            ?_, ?_⟩
          · intro j hj
            obtain rfl | hj := hj
            · exact .inr hifits
            · exact .inl hj
          · intro j now' hj hjfits hpost
            obtain ⟨hchunk, -⟩ := Post.chunk.inj hpost
            rw [chunkAt_inj ha.size hi hj hchunk]
            exact Set.mem_insert j posted
        · -- the refusal contradicts either assumption
          exact absurd hok (not_or.mpr ⟨hdecodes, fun hwelcome => hwelcome.2 hanswer⟩)
      · have hanswer : answer codec principal commandId manifest t
            (.chunk (chunkAt codec manifest file i) now) = .error .payloadTooLarge :=
          answer_of_not_fits now hifits
        rw [step_of_error hanswer, Welcome, hanswer]
        refine ⟨⟨by simp, by simp⟩, posted, h, fun _ hi => hi, fun _ hi => .inl hi, ?_⟩
        intro j now' hj hjfits hpost
        obtain ⟨hchunk, -⟩ := Post.chunk.inj hpost
        obtain rfl := chunkAt_inj ha.size hi hj hchunk
        exact absurd hjfits hifits

/-- Posts of the file's own chunks are accepted one after the other, provided the file decodes;
and if they are accepted, the server holds those among them that fit. -/
theorem progress_run (hrole : principal.role.canIngest) (ha : Announces request manifest file)
    {posts : List Post}
    (h : Progress codec principal commandId request manifest file objects t posted)
    (hunexpired : ∀ post ∈ posts, request.expiredAt post.now = false)
    (hown : ∀ chunk now, .chunk chunk now ∈ posts →
      ∃ i < pieces file, chunkAt codec manifest file i = chunk)
    (hok : Decodes codec manifest file ∨ Run.Each (step codec principal commandId manifest)
      (Welcome codec principal commandId manifest) t posts) :
    Run.Each (step codec principal commandId manifest) (Welcome codec principal commandId manifest)
        t posts ∧
      ∃ posted', Progress codec principal commandId request manifest file objects
          (Run.run (step codec principal commandId manifest) t posts) posted' ∧
        posted ⊆ posted' ∧ (∀ i ∈ posted', i ∈ posted ∨ Fits codec manifest file i) ∧
        ∀ i now, i < pieces file → Fits codec manifest file i →
          .chunk (chunkAt codec manifest file i) now ∈ posts → i ∈ posted' := by
  induction posts generalizing t posted with
  | nil => exact ⟨trivial, posted, h, fun _ hi => hi, fun _ hi => .inl hi, by simp⟩
  | cons post posts ih =>
      rw [List.forall_mem_cons] at hunexpired
      obtain ⟨hwelcome, posted₁, hprogress, hsubset₁, hfits₁, hposted₁⟩ :=
        progress_step hrole ha h hunexpired.1
          (fun chunk now hpost => hown chunk now (by simp [hpost]))
          (hok.imp_right fun heach => heach.1)
      obtain ⟨heach, posted', hrun, hsubset, hfits, hposted⟩ :=
        ih hprogress hunexpired.2
          (fun chunk now hmem => hown chunk now (List.mem_cons_of_mem _ hmem))
          (hok.imp_right fun heach => heach.2)
      refine ⟨⟨hwelcome, heach⟩, posted', hrun, hsubset₁.trans hsubset, ?_, ?_⟩
      · intro i hi
        exact (hfits i hi).elim (hfits₁ i) .inr
      · intro i now hi hifits hmem
        obtain hhead | hmem := List.mem_cons.mp hmem
        · exact hsubset (hposted₁ i now hi hifits hhead.symm)
        · exact hposted i now hi hifits hmem

/-- A whole schedule: the manifest first, then every chunk. The object is stored when all of the
chunks fit, and otherwise the objects are those from before. -/
theorem schedule_run (ha : Announces request manifest file)
    (hready : Ready principal commandId request manifest.objectSha256 t) {posts : List Post}
    (hschedule : Schedule request ((List.range (pieces file)).map (chunkAt codec manifest file))
      posts)
    (hok : Decodes codec manifest file ∨ Run.Each (step codec principal commandId manifest)
      (Welcome codec principal commandId manifest) t posts) :
    Run.Each (step codec principal commandId manifest) (Welcome codec principal commandId manifest)
        t posts ∧
      ((∀ i < pieces file, Fits codec manifest file i) →
        ∃ row, (Run.run (step codec principal commandId manifest) t posts).contentObjects.get?
          manifest.objectSha256 = some row ∧ row.contentZstd = file) ∧
      (¬ (∀ i < pieces file, Fits codec manifest file i) →
        (Run.run (step codec principal commandId manifest) t posts).contentObjects =
          t.contentObjects) := by
  have hinFlight : InFlight codec principal commandId request manifest file t ∅ := by
    refine ⟨hready.command, ?_, by simp, by simp, ?_⟩
    · intro row hrow
      rw [ContentTables.manifestKey, ha.isPart.requestId, hready.noManifest] at hrow
      cases hrow
    · intro i _
      rw [ha.isPart.requestId]
      exact hready.noChunk i
  obtain ⟨now, rest, rfl⟩ := hschedule.first
  have hunexpired := hschedule.unexpired
  rw [List.forall_mem_cons] at hunexpired
  obtain ⟨t', hanswer, hinFlight', hannounced, hobjects⟩ :=
    answer_manifest now hready.role ha hinFlight hunexpired.1
  have hprogress : Progress codec principal commandId request manifest file t.contentObjects t' ∅ :=
    ⟨hinFlight', hannounced, fun hall => absurd (hall 0 (pieces_pos ha.nonempty)) (by simp),
      fun _ => hobjects⟩
  have hown : ∀ chunk now', .chunk chunk now' ∈ rest →
      ∃ i < pieces file, chunkAt codec manifest file i = chunk := by
    intro chunk now' hmem
    obtain ⟨i, hi, heq⟩ := List.mem_map.mp (hschedule.own chunk now' (List.mem_cons_of_mem _ hmem))
    exact ⟨i, List.mem_range.mp hi, heq⟩
  have hstep := step_of_ok hanswer
  have hok' : Decodes codec manifest file ∨ Run.Each (step codec principal commandId manifest)
      (Welcome codec principal commandId manifest) t' rest :=
    hok.imp_right fun heach => hstep ▸ heach.2
  obtain ⟨heach, posted, hrun, -, hfits, hposted⟩ :=
    progress_run hready.role ha hprogress hunexpired.2 hown hok'
  rw [Run.each_cons, Run.run_cons, hstep]
  refine ⟨⟨welcome_of_ok hanswer, heach⟩, fun hall => hrun.stored ?_, fun hnot => hrun.unfinished ?_⟩
  · intro i hi
    obtain ⟨now', hmem⟩ := hschedule.covers (chunkAt codec manifest file i)
      (List.mem_map_of_mem (List.mem_range.mpr hi))
    rw [List.mem_cons] at hmem
    exact hposted i now' hi (hall i hi) (hmem.resolve_left (by simp))
  · intro hall
    exact hnot fun i hi => (hfits i (hall i hi)).resolve_left (by simp)

end Progress

end Codexwatch.System.Transfer
