import Mathlib.Data.Nat.Digits.Lemmas
import Codexwatch.System.Upload

/-!
# From the blob store to the server's objects

A captured body is compressed and stored; later its manifest and its chunks are
posted to the server.

The chunk count is computed twice: `store` takes the length of the body,
`load_chunks` the length of the compressed file. The manifest announces the first,
the chunks carry the second, and the server compares them. Besides, a chunk of a
whole mebibyte takes more than two mebibytes as JSON, which the route refuses: what
arrives at all is a single chunk.

## Main definitions

* `Transfers` — what a transfer promises.
* `Transferable` — when the promise is kept.
* `transfers_iff` — the two agree.
-/
namespace Codexwatch.System.Transfer

open Protocol Client Relational Check
open Server (Principal StatusCode ContentTables uploadManifests uploadChunk)

/-- The manifest and the chunks agree, and posting them in any order and repetition gives the
server the body. -/
structure Transfers (codec : Codec) (request : ContentRequest) (manifest : ContentObjectManifest)
    (chunks : List ContentUploadChunk) (body : Bytes) : Prop where
  chunkCount : ∀ chunk ∈ chunks, chunk.chunkCount = manifest.chunkCount
  compressedBytes : manifest.compressedBytes = (chunks.map fun c => c.payloadZstd.length).sum
  valid : ∀ chunk ∈ chunks, chunk.validate codec = .ok ()
  posts : ∀ principal commandId t, Ready principal commandId request manifest.objectSha256 t →
    ∀ posts, Schedule request chunks posts →
      Run.Each (step codec principal commandId manifest) (Welcome codec principal commandId manifest)
        t posts ∧
      ∃ row, (Run.run (step codec principal commandId manifest) t posts).contentObjects.get?
        manifest.objectSha256 = some row ∧ codec.decodeAll row.contentZstd = some body

/-! ## What the client sends of a stored body -/

/-- The row and the file of an object are as they were, but for the pin. -/
def SameObject (objectSha256 : String) (c c' : Contents) : Prop :=
  c'.files.get? objectSha256 = c.files.get? objectSha256 ∧
    ∃ pin, c'.rawObjects.get? objectSha256 =
      (c.rawObjects.get? objectSha256).map fun row => { row with pinnedByCommandId := pin }

/-- What is sent: a copy of the row as manifest, and the pieces of the file as chunks. -/
structure Sent (codec : Codec) (request : ContentRequest) (input : StoredContentInput)
    (file : Bytes) (manifest : ContentObjectManifest) (chunks : List ContentUploadChunk) :
    Prop where
  isPart : ContentTables.ManifestMatches request manifest
  objectSha256 : manifest.objectSha256 = codec.sha256Hex input.body
  mediaType : manifest.mediaType = input.mediaType
  visible : Text.isBlank input.mediaType = false
  uncompressedBytes : manifest.uncompressedBytes = input.body.length
  compressedBytes : manifest.compressedBytes = (codec.encodeAll input.body).length
  chunkCount : manifest.chunkCount = chunkCount input.body.length
  chunks : chunks = (List.range (pieces file)).map (chunkAt codec manifest file)

/-- The file that lies under the body's digest once the body is stored. -/
def fileOf (codec : Codec) (files : BlobStore) (input : StoredContentInput) : Bytes :=
  (files.get? (codec.sha256Hex input.body)).getD (codec.encodeAll input.body)

section Client
variable {codec : Codec} {c c₁ c₂ c₃ : Contents} {input : StoredContentInput} {stored : StoredBlob}
  {command : ContentRequestCommand} {nowMs : ℤ} {work : UploadWork}
  {manifest : ContentObjectManifest} {chunks : List ContentUploadChunk}

theorem sent_of_stored (hstore : persistContent codec c input = some (stored, c₁))
    (hsame : SameObject stored.objectSha256 c₁ c₂)
    (hready : prepareUpload c₂ command nowMs = (.ready work, c₃))
    (hmanifest : manifest ∈ work.manifests) (hsha : manifest.objectSha256 = stored.objectSha256)
    (hchunks : c₃.files.loadChunks codec manifest.objectSha256 manifest.requestId = some chunks) :
    Sent codec command.request input (fileOf codec c.files input) manifest chunks := by
  obtain ⟨hvisible, hstored, hc₁⟩ := persistContent_eq_some.mp hstore
  obtain ⟨hfiles, pin, hrows⟩ := hsame
  obtain ⟨part, row, hpart, hrow, heq⟩ := manifest_of_ready hready hmanifest
  rw [hsha, hrows, ← hc₁, Table.get?_replace, if_pos rfl, Option.map_some, Option.some.injEq] at hrow
  have hfile : c₂.files.get? manifest.objectSha256 =
      some (fileOf codec c.files input) := by
    rw [hsha, hfiles, ← hc₁, Table.get?_insertIgnore, if_pos rfl, ← hstored, fileOf]
  rw [files_prepareUpload hready] at hchunks
  simp only [BlobStore.loadChunks, hfile, Option.bind_eq_bind, Option.bind_some, Option.pure_def,
    Option.some.injEq] at hchunks
  subst hrow
  refine ⟨?_, ?_, ?_, hvisible, ?_, ?_, ?_, hchunks.symm⟩
  · rw [heq]
    exact ⟨rfl, rfl, rfl, rfl, hpart⟩
  · rw [hsha, ← hstored]
  all_goals
    rw [heq, ← hstored]
    rfl

end Client

/-! ## When a transfer keeps its promise -/

section Main
variable {codec : Codec} {request : ContentRequest} {input : StoredContentInput} {file : Bytes}
  {manifest : ContentObjectManifest} {chunks : List ContentUploadChunk}

/-- What a transfer of the file needs. -/
structure FileFits (codec : Codec) (requestId : Uuid) (input : StoredContentInput) (file : Bytes) :
    Prop where
  mediaType : input.mediaType.utf8ByteSize ≤ MAX_SHORT_TEXT_BYTES
  nonempty : file ≠ []
  bodies : ∀ i < pieces file,
    (BlobStore.chunkOf codec file (codec.sha256Hex input.body) requestId i).json.utf8ByteSize ≤
      DEFAULT_BODY_LIMIT
  chunkCount : chunkCount input.body.length = chunkCount file.length
  length : file.length = (codec.encodeAll input.body).length
  decodes : codec.decodeAll file = some input.body

/-- A whole mebibyte does not fit, so that there is only one chunk. -/
theorem pieces_le_one {objectSha256 : String} {requestId : Uuid}
    (h : ∀ i < pieces file, (BlobStore.chunkOf codec file objectSha256 requestId i).json.utf8ByteSize ≤
      DEFAULT_BODY_LIMIT) : pieces file ≤ 1 := by
  by_contra hpieces
  have hfits := h 0 (by omega)
  have hjson := (BlobStore.chunkOf codec file objectSha256 requestId 0).utf8ByteSize_json.1
  have hlength : (BlobStore.chunkOf codec file objectSha256 requestId 0).payloadZstd.length =
      min MAX_CONTENT_CHUNK_BYTES file.length := by
    simp [BlobStore.chunkOf, Chunks.piece]
  have hfile : ¬ file.length ≤ MAX_CONTENT_CHUNK_BYTES := by
    intro hle
    apply hpieces
    rw [MAX_CONTENT_CHUNK_BYTES] at hle
    rw [pieces, Chunks.divCeil, MAX_CONTENT_CHUNK_BYTES]
    omega
  rw [hlength, MAX_CONTENT_CHUNK_BYTES] at hjson
  rw [MAX_CONTENT_CHUNK_BYTES] at hfile
  rw [DEFAULT_BODY_LIMIT] at hfits
  omega

/-- A short file fits, whatever its bytes. -/
theorem bodies_of_short {requestId : Uuid} {objectSha256 : String}
    (hsha : objectSha256.utf8ByteSize = 64) (h : file.length ≤ 500000) (i : ℕ) :
    (BlobStore.chunkOf codec file objectSha256 requestId i).json.utf8ByteSize ≤
      DEFAULT_BODY_LIMIT := by
  have hjson := (BlobStore.chunkOf codec file objectSha256 requestId i).utf8ByteSize_json.2
  have hpayload : (BlobStore.chunkOf codec file objectSha256 requestId i).payloadZstd.length ≤
      file.length := by
    simp only [BlobStore.chunkOf, Chunks.piece, List.length_take, List.length_drop]
    omega
  have hdigest : (BlobStore.chunkOf codec file objectSha256 requestId i).payloadSha256.utf8ByteSize =
      64 := by
    simp [BlobStore.chunkOf, Codec.sha256Hex, Text.utf8ByteSize_hexEncode]
  have hobject : (BlobStore.chunkOf codec file objectSha256 requestId i).objectSha256.utf8ByteSize =
      64 := hsha
  rw [DEFAULT_BODY_LIMIT]
  omega

theorem FileFits.size {requestId : Uuid} (h : FileFits codec requestId input file) :
    pieces file < 2 ^ 32 := by
  have hle := pieces_le_one h.bodies
  omega

theorem valid_of_sent (hrequest : request.Valid)
    (hsent : Sent codec request input file manifest chunks)
    (hmedia : input.mediaType.utf8ByteSize ≤ MAX_SHORT_TEXT_BYTES)
    (hcount : manifest.chunkCount ≠ 0) : manifest.Valid where
  requestId := hsent.isPart.requestId ▸ hrequest.requestId
  taskRef := hsent.isPart.taskRef ▸ hrequest.taskRef
  sessionId := hsent.isPart.sessionId ▸ hrequest.sessionId
  threadId := hsent.isPart.threadId ▸ hrequest.threadId
  objectSha256 := by
    rw [hsent.objectSha256]
    exact Text.isHexDigest_hexEncode (Vector.length_toList ..)
  mediaType := hsent.mediaType ▸ ⟨hsent.visible, hmedia⟩
  chunkCount := hcount

theorem announces_of_sent (hsent : Sent codec request input file manifest chunks)
    (hvalid : manifest.Valid) (hne : file ≠ []) (hsize : pieces file < 2 ^ 32)
    (hcount : chunkCount input.body.length = chunkCount file.length)
    (hlength : file.length = (codec.encodeAll input.body).length) :
    Announces request manifest file where
  valid := hvalid
  isPart := hsent.isPart
  nonempty := hne
  size := hsize
  chunkCount := by rw [hsent.chunkCount, hcount, chunkCount_eq_pieces hne hsize]
  compressedBytes := by rw [hsent.compressedBytes, hlength]

theorem sum_length_chunkAt : (((List.range (pieces file)).map (chunkAt codec manifest file)).map
    fun c => c.payloadZstd.length).sum = file.length := by
  rw [List.map_map]
  exact Chunks.sum_length_piece chunk_size_pos file

theorem fits_iff_of_sent (hsent : Sent codec request input file manifest chunks) :
    (∀ i < pieces file, Fits codec manifest file i) ↔ ∀ i < pieces file,
      (BlobStore.chunkOf codec file (codec.sha256Hex input.body) request.requestId i).json.utf8ByteSize ≤
        DEFAULT_BODY_LIMIT := by
  simp only [Fits, chunkAt, hsent.objectSha256, hsent.isPart.requestId]

theorem transfers_of_fileFits (hrequest : request.Valid)
    (hsent : Sent codec request input file manifest chunks)
    (hfits : FileFits codec request.requestId input file) :
    Transfers codec request manifest chunks input.body := by
  have hpieces := chunkCount_eq_pieces hfits.nonempty hfits.size
  have hcount : manifest.chunkCount = pieces file := by
    rw [hsent.chunkCount, hfits.chunkCount, hpieces]
  have hvalid : manifest.Valid := by
    apply valid_of_sent hrequest hsent hfits.mediaType
    have hpos := pieces_pos hfits.nonempty
    omega
  have ha := announces_of_sent hsent hvalid hfits.nonempty hfits.size hfits.chunkCount hfits.length
  have hdecodes : Decodes codec manifest file := by
    refine ⟨input.body, hfits.decodes, ?_, hsent.uncompressedBytes.symm⟩
    rw [hsent.objectSha256, Codec.sha256Hex, Text.asciiLowercase_hexEncode]
  constructor
  · intro chunk hchunk
    rw [hsent.chunks] at hchunk
    obtain ⟨i, -, rfl⟩ := List.mem_map.mp hchunk
    exact hpieces.trans hcount.symm
  · rw [hsent.chunks, sum_length_chunkAt, ha.compressedBytes]
  · intro chunk hchunk
    rw [hsent.chunks] at hchunk
    obtain ⟨i, hi, rfl⟩ := List.mem_map.mp hchunk
    exact ContentUploadChunk.validate_eq_ok.mpr (valid_chunkOf hvalid.requestId hvalid.objectSha256
      hfits.nonempty hfits.size (List.mem_range.mp hi))
  · intro principal commandId t hready posts hschedule
    rw [hsent.chunks] at hschedule
    obtain ⟨heach, hstored, -⟩ := schedule_run ha hready hschedule (.inl hdecodes)
    obtain ⟨row, hrow, hcontent⟩ := hstored ((fits_iff_of_sent hsent).mpr hfits.bodies)
    exact ⟨heach, row, hrow, by rw [hcontent, hfits.decodes]⟩

/-- A server that has just queued the request. -/
def freshServer (request : ContentRequest) : ContentTables :=
  Server.withContentRequest ⟨request.requestId, request⟩ .empty

theorem ready_freshServer (request : ContentRequest) (objectSha256 : String) :
    Ready ⟨request.clientId, .client⟩ request.requestId request objectSha256
      (freshServer request) := by
  refine ⟨rfl, ?_, rfl, fun _ => rfl⟩
  simp [ContentTables.loadCommandRequest, freshServer, Server.withContentRequest,
    Server.commandRowOf, Server.contentRequestRowOf, ContentTables.requestOf]

/-- The manifest, then the chunks in their order. -/
def inOrder (now : TimestampMs) (chunks : List ContentUploadChunk) : List Post :=
  .manifest now :: chunks.map fun chunk => .chunk chunk now

theorem schedule_inOrder (chunks : List ContentUploadChunk) {now : TimestampMs}
    (hnow : request.expiredAt now = false) :
    Schedule request chunks (inOrder now chunks) where
  first := ⟨now, _, rfl⟩
  unexpired post hpost := by
    simp only [inOrder, List.mem_cons, List.mem_map] at hpost
    obtain rfl | ⟨chunk, -, rfl⟩ := hpost <;> exact hnow
  own chunk now' hmem := by
    simp only [inOrder, List.mem_cons, List.mem_map, reduceCtorEq, false_or, Post.chunk.injEq] at hmem
    obtain ⟨chunk', hchunk', rfl, -⟩ := hmem
    exact hchunk'
  covers chunk hchunk := ⟨now, by simp [inOrder, hchunk]⟩

/-- A request does not expire when it is made. -/
theorem expiredAt_createdAtMs (hrequest : request.Valid) :
    request.expiredAt request.createdAtMs = false := by
  rw [ContentRequest.expiredAt]
  cases hexpires : request.expiresAtMs with
  | none => rfl
  | some expires =>
      have hlt := hrequest.expiresAtMs expires hexpires
      simpa using hlt

/-- A manifest that is not valid changes nothing: the handler refuses it, or the route does. -/
theorem step_manifest_of_not_valid {principal : Principal} {commandId : Uuid} {t : ContentTables}
    {now : TimestampMs} {objectSha256 : String}
    (hready : Ready principal commandId request objectSha256 t)
    (hnow : request.expiredAt now = false) (h : ¬ manifest.Valid) :
    step codec principal commandId manifest t (.manifest now) = t := by
  cases hanswer : answer codec principal commandId manifest t (.manifest now) with
  | error status => exact step_of_error hanswer
  | ok t' =>
      rw [answer, handle] at hanswer
      split at hanswer
      · obtain ⟨r, haccepts, -⟩ | ⟨r, -, -, hcommand, hexpired, -⟩ :=
          Server.uploadManifests_eq_ok.mp hanswer
        · exact absurd (haccepts.valid manifest (by simp)).1 h
        · obtain rfl := Option.some.inj (hready.command.symm.trans hcommand)
          rw [hnow] at hexpired
          cases hexpired
      · cases hanswer

/-- Without its manifest a chunk is refused. -/
theorem step_chunk_of_no_manifest {principal : Principal} {commandId : Uuid} {t : ContentTables}
    {chunk : ContentUploadChunk} {now : TimestampMs}
    (hcommand : t.loadCommandRequest commandId principal.clientId = some request)
    (hnow : request.expiredAt now = false)
    (hnone : t.loadManifest request.requestId chunk.objectSha256 = none) :
    step codec principal commandId manifest t (.chunk chunk now) = t := by
  cases hanswer : answer codec principal commandId manifest t (.chunk chunk now) with
  | error status => exact step_of_error hanswer
  | ok t' =>
      rw [answer, handle] at hanswer
      split at hanswer
      · obtain ⟨⟨result, t''⟩, hupload, rfl⟩ := map_eq_ok.mp hanswer
        obtain ⟨r, m, haccepts, -⟩ | ⟨r, -, -, hr, -, hexpired, -⟩ :=
          Server.uploadChunk_eq_ok.mp hupload
        · obtain rfl := Option.some.inj (hcommand.symm.trans haccepts.command)
          exact absurd (hnone.symm.trans haccepts.stored) (by simp)
        · obtain rfl := Option.some.inj (hcommand.symm.trans hr)
          rw [hnow] at hexpired
          cases hexpired
      · cases hanswer

/-- A manifest whose object is stored in the end is valid. -/
theorem valid_of_stored {principal : Principal} {commandId : Uuid} {t : ContentTables}
    {now : TimestampMs} (hready : Ready principal commandId request manifest.objectSha256 t)
    (hnow : request.expiredAt now = false)
    (hchunks : ∀ chunk ∈ chunks, chunk.objectSha256 = manifest.objectSha256)
    (h : (Run.run (step codec principal commandId manifest) t (inOrder now chunks)).contentObjects ≠
      t.contentObjects) : manifest.Valid := by
  contrapose! h
  have hnone : t.loadManifest request.requestId manifest.objectSha256 = none := by
    rw [ContentTables.loadManifest, hready.noManifest, Option.map_none]
  have hrun : Run.run (step codec principal commandId manifest) t
      (chunks.map fun chunk => .chunk chunk now) = t := by
    induction chunks with
    | nil => rfl
    | cons chunk chunks ih =>
        rw [List.forall_mem_cons] at hchunks
        have hstep : step codec principal commandId manifest t (.chunk chunk now) = t :=
          step_chunk_of_no_manifest hready.command hnow (hchunks.1.symm ▸ hnone)
        rw [List.map_cons, Run.run_cons, hstep]
        exact ih hchunks.2
  rw [inOrder, Run.run_cons, step_manifest_of_not_valid hready hnow h, hrun]

theorem step_manifest_contentObjects (codec : Codec) (principal : Principal) (commandId : Uuid)
    (t : ContentTables) (now : TimestampMs) :
    (step codec principal commandId manifest t (.manifest now)).contentObjects =
      t.contentObjects := by
  cases hanswer : answer codec principal commandId manifest t (.manifest now) with
  | error status => rw [step_of_error hanswer]
  | ok t' =>
      rw [step_of_ok hanswer]
      rw [answer, handle] at hanswer
      split at hanswer
      · obtain ⟨r, -, rfl⟩ | ⟨r, -, -, -, -, rfl⟩ := Server.uploadManifests_eq_ok.mp hanswer <;> rfl
      · cases hanswer

theorem fileFits_of_transfers (hrequest : request.Valid)
    (hsent : Sent codec request input file manifest chunks)
    (h : Transfers codec request manifest chunks input.body) :
    FileFits codec request.requestId input file := by
  have hnow := expiredAt_createdAtMs hrequest
  have hready := ready_freshServer request manifest.objectSha256
  have hschedule := schedule_inOrder chunks hnow
  obtain ⟨heach, row, hrow, hdecode⟩ := h.posts _ _ _ hready _ hschedule
  have hnew : (Run.run (step codec ⟨request.clientId, .client⟩ request.requestId manifest)
      (freshServer request) (inOrder request.createdAtMs chunks)).contentObjects ≠
        (freshServer request).contentObjects := by
    intro heq
    have hempty : (freshServer request).contentObjects = .empty := rfl
    rw [heq, hempty, Table.get?_empty] at hrow
    cases hrow
  have hvalid : manifest.Valid := by
    apply valid_of_stored hready hnow _ hnew
    intro chunk hchunk
    rw [hsent.chunks] at hchunk
    obtain ⟨i, -, rfl⟩ := List.mem_map.mp hchunk
    rfl
  have hlength : file.length = (codec.encodeAll input.body).length := by
    rw [← hsent.compressedBytes, h.compressedBytes, hsent.chunks, sum_length_chunkAt]
  have hne : file ≠ [] := by
    intro hnil
    -- without chunks the manifest is the only post, and it stores no object
    have hchunks : chunks = [] := by
      rw [hsent.chunks, hnil]
      rfl
    rw [hchunks, inOrder, List.map_nil, Run.run_cons, Run.run_nil, step_manifest_contentObjects] at hrow
    cases hrow
  have hsize : pieces file < 2 ^ 32 := by
    apply pieces_lt_of_valid codec
    intro i hi
    apply ContentUploadChunk.validate_eq_ok.mp
    apply h.valid
    rw [hsent.chunks]
    exact List.mem_map_of_mem (List.mem_range.mpr hi)
  have hcount : chunkCount input.body.length = chunkCount file.length := by
    rw [← hsent.chunkCount]
    apply (h.chunkCount (chunkAt codec manifest file 0) _).symm
    rw [hsent.chunks]
    exact List.mem_map_of_mem (List.mem_range.mpr (pieces_pos hne))
  have ha := announces_of_sent hsent hvalid hne hsize hcount hlength
  rw [hsent.chunks] at hschedule heach hrow hnew
  obtain ⟨-, hstored, hunfinished⟩ := schedule_run ha hready hschedule (.inr heach)
  have hfits : ∀ i < pieces file, Fits codec manifest file i := by
    by_contra hnot
    exact hnew (hunfinished hnot)
  obtain ⟨row', hrow', hcontent⟩ := hstored hfits
  obtain rfl := Option.some.inj (hrow.symm.trans hrow')
  refine ⟨?_, hne, (fits_iff_of_sent hsent).mp hfits, hcount, hlength, ?_⟩
  · have hmedia := hvalid.mediaType
    rw [hsent.mediaType] at hmedia
    exact hmedia.2
  · rw [← hcontent, hdecode]

/-- When the server receives what the client stored: the two chunk counts agree, the media type is
not too long, there is something to send, every chunk of the file is within the limit of the
route (so that there is one only), and a file that was already there under the digest is as good
as the one that would have been written. -/
structure Transferable (codec : Codec) (files : BlobStore) (requestId : Uuid)
    (input : StoredContentInput) : Prop where
  mediaType : input.mediaType.utf8ByteSize ≤ MAX_SHORT_TEXT_BYTES
  nonempty : codec.encodeAll input.body ≠ []
  bodies : ∀ i < pieces (fileOf codec files input),
    (BlobStore.chunkOf codec (fileOf codec files input) (codec.sha256Hex input.body) requestId
      i).json.utf8ByteSize ≤ DEFAULT_BODY_LIMIT
  chunkCount : chunkCount input.body.length = chunkCount (codec.encodeAll input.body).length
  file : ∀ file, files.get? (codec.sha256Hex input.body) = some file →
    codec.decodeAll file = some input.body ∧ file.length = (codec.encodeAll input.body).length

theorem fileFits_iff (hcodec : ∀ bytes, codec.decodeAll (codec.encodeAll bytes) = some bytes)
    (files : BlobStore) (requestId : Uuid) :
    FileFits codec requestId input (fileOf codec files input) ↔
      Transferable codec files requestId input := by
  constructor
  · intro h
    have hlength := h.length
    have hcount := h.chunkCount
    rw [hlength] at hcount
    refine ⟨h.mediaType, ?_, h.bodies, hcount, ?_⟩
    · intro hnil
      apply h.nonempty
      apply List.eq_nil_of_length_eq_zero
      rw [hlength, hnil, List.length_nil]
    · intro file hfile
      rw [fileOf, hfile] at h
      exact ⟨h.decodes, h.length⟩
  · intro h
    have hfile : codec.decodeAll (fileOf codec files input) = some input.body ∧
        (fileOf codec files input).length = (codec.encodeAll input.body).length := by
      rw [fileOf]
      cases hget : files.get? (codec.sha256Hex input.body) with
      | none => exact ⟨hcodec input.body, rfl⟩
      | some file => exact h.file file hget
    obtain ⟨hdecodes, hlength⟩ := hfile
    refine ⟨h.mediaType, ?_, h.bodies, ?_, hlength, hdecodes⟩
    · intro hnil
      apply h.nonempty
      apply List.eq_nil_of_length_eq_zero
      rw [← hlength, hnil, List.length_nil]
    · rw [hlength]
      exact h.chunkCount

/-- The manifest and the chunks of a stored body agree, and every schedule of posts brings the
body to the server, exactly when the body is transferable. Between storing and sending, anything
may happen that leaves the object's row and file. -/
theorem transfers_iff {codec : Codec} {c c₁ c₂ c₃ : Contents} {input : StoredContentInput}
    {stored : StoredBlob} {command : ContentRequestCommand} {nowMs : ℤ} {work : UploadWork}
    {manifest : ContentObjectManifest} {chunks : List ContentUploadChunk}
    (hcodec : ∀ bytes, codec.decodeAll (codec.encodeAll bytes) = some bytes)
    (hstore : persistContent codec c input = some (stored, c₁))
    (hsame : SameObject stored.objectSha256 c₁ c₂)
    (hrequest : command.request.validate = .ok ())
    (hready : prepareUpload c₂ command nowMs = (.ready work, c₃))
    (hmanifest : manifest ∈ work.manifests) (hsha : manifest.objectSha256 = stored.objectSha256)
    (hchunks : c₃.files.loadChunks codec manifest.objectSha256 manifest.requestId = some chunks) :
    Transfers codec command.request manifest chunks input.body ↔
      Transferable codec c.files command.request.requestId input := by
  have hvalid := ContentRequest.validate_eq_ok.mp hrequest
  have hsent := sent_of_stored hstore hsame hready hmanifest hsha hchunks
  rw [← fileFits_iff hcodec c.files command.request.requestId]
  exact ⟨fileFits_of_transfers hvalid hsent, transfers_of_fileFits hvalid hsent⟩

end Main

/-! ## A run of zeros -/

/-- A codec that stores a run of zeros as its length, and anything else as it is. -/
def runLength : Codec where
  intoWriter _ := []
  fromReader _ := none
  encodeAll bytes :=
    if bytes = List.replicate bytes.length 0 then
      1 :: (Nat.digits 256 bytes.length).map UInt8.ofNat
    else 0 :: bytes
  readDecoded bytes limit := some (bytes.take limit)
  decodeAll
    | [] => none
    | tag :: rest =>
        if tag = 0 then some rest
        else some (List.replicate (Nat.ofDigits 256 (rest.map UInt8.toNat)) 0)
  sha256 bytes := Vector.replicate 32 (bytes.headD 0)

theorem decodeAll_runLength (bytes : Bytes) :
    runLength.decodeAll (runLength.encodeAll bytes) = some bytes := by
  by_cases hzeros : bytes = List.replicate bytes.length 0
  · have hdigits : ((Nat.digits 256 bytes.length).map UInt8.ofNat).map UInt8.toNat =
        Nat.digits 256 bytes.length := by
      rw [List.map_map]
      conv_rhs => rw [← List.map_id (Nat.digits 256 bytes.length)]
      apply List.map_congr_left
      intro d hd
      have hlt := Nat.digits_lt_base (by decide) hd
      rw [Function.comp_apply, UInt8.toNat_ofNat', Nat.mod_eq_of_lt hlt, id]
    simp only [runLength, if_pos hzeros, hdigits, Nat.ofDigits_digits]
    rw [if_neg (by decide), ← hzeros]
  · simp [runLength, hzeros]

def sampleInput (body : Bytes) : StoredContentInput where
  task := ⟨"a", "codex", "s", "t", "u"⟩
  part := .response
  mediaType := "text/event-stream"
  body := body
  headers := []
  createdAt := 0

def sampleCommand : ContentRequestCommand where
  commandId := .v7 1
  request :=
    { requestId := .v7 0, clientId := "a", taskRef := "s:t:u", sessionId := "s", threadId := "t"
      createdAtMs := 5, expiresAtMs := none, parts := [.response] }

def sampleContents : Contents := ⟨.empty, .empty, .empty⟩

/-- What `store` returns for the sample. -/
def sampleStored (codec : Codec) (body : Bytes) : StoredBlob where
  task := (sampleInput body).task
  part := .response
  objectSha256 := codec.sha256Hex body
  mediaType := "text/event-stream"
  uncompressedBytes := body.length
  compressedBytes := codec.encodeAll body
  chunkCount := chunkCount body.length
  createdAt := 0
  expiresAt := 0 + hours RETENTION_HOURS
  sanitizedHeaders := []

def sampleStore (codec : Codec) (body : Bytes) : Contents :=
  { sampleContents with
    files := sampleContents.files.insertIgnore (codec.sha256Hex body) (codec.encodeAll body)
    rawObjects := sampleContents.rawObjects.replace (codec.sha256Hex body)
      (rawObjectRowOf (sampleStored codec body)) }

theorem persistContent_sample (codec : Codec) (body : Bytes) :
    persistContent codec sampleContents (sampleInput body) =
      some (sampleStored codec body, sampleStore codec body) :=
  persistContent_eq_some.mpr ⟨by simp [sampleInput]; decide, rfl, rfl⟩

def sampleManifest (codec : Codec) (body : Bytes) : ContentObjectManifest :=
  manifestOf sampleCommand.request .response (codec.sha256Hex body)
    (rawObjectRowOf (sampleStored codec body))

theorem rows_sample (codec : Codec) (body : Bytes) :
  (sampleStore codec body).rawObjects.rows =
   [(codec.sha256Hex body, rawObjectRowOf (sampleStored codec body))] := rfl

theorem prepareManifest_sample (codec : Codec) (body : Bytes) :
    prepareManifest (sampleStore codec body) sampleCommand.request 5 .response =
      .ok (sampleManifest codec body) := by
  have hnewest : newestObject (sampleStore codec body) sampleCommand.request.taskRef .response =
      some (codec.sha256Hex body, rawObjectRowOf (sampleStored codec body)) := by
    rw [newestObject, rows_sample, List.filter_cons_of_pos, List.filter_nil, lastBy,
      List.argmax_singleton]
    rfl
  simp only [prepareManifest, bind_eq_ok, exists_unit_and, required_eq_ok, ensure_eq_ok,
    pure_eq_ok]
  refine ⟨_, hnewest, ?_, rfl⟩
  change (5 : ℤ) < ts (0 + hours RETENTION_HOURS)
  decide

theorem prepareUpload_sample (codec : Codec) (body : Bytes) :
    prepareUpload (sampleStore codec body) sampleCommand 5 =
      (.ready ⟨.v7 1, .v7 0, [sampleManifest codec body]⟩,
        (prepareUpload (sampleStore codec body) sampleCommand 5).2) := by
  have hexpired : sampleCommand.request.expiredAt 5 = false := rfl
  have hmanifests : sampleCommand.request.parts.mapM
      (prepareManifest (sampleStore codec body) sampleCommand.request 5) =
        .ok [sampleManifest codec body] := by
    simp only [sampleCommand, List.mapM_cons, List.mapM_nil, bind_eq_ok, pure_eq_ok]
    exact ⟨_, prepareManifest_sample codec body, [], rfl, rfl⟩
  rw [prepareUpload, hexpired, if_neg (by simp), hmanifests]
  rfl

/-- The body of a mebibyte and a byte, all zeros. -/
def zeros : Bytes := List.replicate (MAX_CONTENT_CHUNK_BYTES + 1) 0

theorem length_zeros : zeros.length = 1048577 := by
  rw [zeros, List.length_replicate, MAX_CONTENT_CHUNK_BYTES]

theorem length_encodeAll_zeros : (runLength.encodeAll zeros).length = 4 := by
  have h : zeros = List.replicate zeros.length 0 := by rw [zeros, List.length_replicate]
  simp only [runLength]
  rw [if_pos h, List.length_cons, List.length_map, length_zeros]
  norm_num

theorem loadChunks_sample (codec : Codec) (body : Bytes) :
    (prepareUpload (sampleStore codec body) sampleCommand 5).2.files.loadChunks codec
        (sampleManifest codec body).objectSha256 (.v7 0) =
      some ((List.range (pieces (codec.encodeAll body))).map
        (chunkAt codec (sampleManifest codec body) (codec.encodeAll body))) := by
  have hfiles := files_prepareUpload (prepareUpload_sample codec body)
  rw [hfiles, BlobStore.loadChunks]
  have hget : (sampleStore codec body).files.get? (sampleManifest codec body).objectSha256 =
      some (codec.encodeAll body) := by
    simp [sampleStore, sampleContents, sampleManifest, manifestOf, Table.get?_insertIgnore]
  rw [hget]
  rfl

theorem not_transfers_zeros :
    ∃ stored c work c' manifest chunks,
      persistContent runLength sampleContents (sampleInput zeros) = some (stored, c) ∧
      prepareUpload c sampleCommand 5 = (.ready work, c') ∧ manifest ∈ work.manifests ∧
      manifest.objectSha256 = stored.objectSha256 ∧
      c'.files.loadChunks runLength manifest.objectSha256 manifest.requestId = some chunks ∧
      ¬ Transfers runLength sampleCommand.request manifest chunks zeros := by
  refine ⟨_, _, _, _, _, _, persistContent_sample runLength zeros, prepareUpload_sample runLength zeros,
    List.mem_singleton_self _, rfl, loadChunks_sample runLength zeros, ?_⟩
  intro h
  have hcount := h.chunkCount
    (chunkAt runLength (sampleManifest runLength zeros) (runLength.encodeAll zeros) 0) (by
    apply List.mem_map_of_mem
    rw [List.mem_range, pieces, length_encodeAll_zeros]
    decide)
  change chunkCount (runLength.encodeAll zeros).length = chunkCount zeros.length at hcount
  rw [length_encodeAll_zeros, length_zeros] at hcount
  revert hcount
  decide

/-- The line of an event, and an empty line. -/
def eventLine : Bytes := utf8Bytes "data: [\"response.completed\",\"stop\"]\n\n"

theorem encodeAll_eventLine : runLength.encodeAll eventLine = 0 :: eventLine := by decide +kernel

theorem transfers_eventLine :
    Transfers runLength sampleCommand.request (sampleManifest runLength eventLine)
      [chunkAt runLength (sampleManifest runLength eventLine) (0 :: eventLine) 0] eventLine := by
  have hchunks := loadChunks_sample runLength eventLine
  rw [encodeAll_eventLine] at hchunks
  refine (transfers_iff decodeAll_runLength (persistContent_sample runLength eventLine)
    ⟨rfl, none, rfl⟩ (by decide +kernel) (prepareUpload_sample runLength eventLine)
    (List.mem_singleton_self _) rfl hchunks).mpr ⟨by decide +kernel, ?_, ?_, ?_, ?_⟩
  · simp [encodeAll_eventLine, sampleInput]
  · intro i _
    apply bodies_of_short
    · decide +kernel
    · decide +kernel
  · decide +kernel
  · intro file hfile
    cases hfile

end Codexwatch.System.Transfer
