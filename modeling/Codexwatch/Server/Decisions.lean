import Codexwatch.Server.Retention

/-!
# Decided content requests

`complete_request_and_command` writes whatever status it is given, and none of its
callers looks whether the request was decided before. A post that arrives after the
expiry of its request, a repeated result and a repeated last chunk therefore decide
it again, and a chunk of a rejected request puts it back to a partial upload.

## Main definitions

* `Completes`, `PutsBack` — the branches that write the row of a request.
* `Spares` — no such branch is taken for a request that is decided otherwise.
* `decisions_stay_iff` — which runs keep every decision.
-/
namespace Codexwatch.Server

open Protocol Relational Check ContentTables

/-- What a decision consists of. -/
def ContentRequestRow.decision (row : ContentRequestRow) :
    RequestStatus × Option RequestStatus × Option TimestampMs :=
  (row.status, row.outcome, row.completedAtMs)

/-! ## The branches that write the row -/

/-- The branch of `upload_chunk` that stores an object. -/
structure Finishes (codec : Codec) (principal : Principal) (commandId : Uuid)
    (chunk : ContentUploadChunk) (now : TimestampMs) (t : ContentTables)
    (request : ContentRequest) (manifest : ContentObjectManifest) (t₁ : ContentTables)
    (assembled uncompressed : Bytes) : Prop where
  accepts : AcceptsChunk codec principal commandId chunk now t request manifest
  upserted : ∃ duplicate, t.upsertChunkRow chunk now = .ok (duplicate, t₁)
  complete : t₁.isObjectComplete chunk.requestId chunk.objectSha256 chunk.chunkCount = true
  assembles : t₁.assembleObject chunk.requestId chunk.objectSha256 chunk.chunkCount = .ok assembled
  decoded : codec.decodeAll assembled = some uncompressed
  digest : codec.sha256Hex uncompressed = Text.asciiLowercase chunk.objectSha256
  compressedBytes : assembled.length = manifest.compressedBytes
  uncompressedBytes : uncompressed.length = manifest.uncompressedBytes

/-- Whether the objects linked after this one count for all parts of the request. -/
def countsForAll (request : ContentRequest) (manifest : ContentObjectManifest)
    (assembled uncompressed : Bytes) (now : TimestampMs) (t : ContentTables) : Bool :=
  request.parts.length ≤ (t.upsertContentObject request manifest assembled uncompressed
    now).linkedObjectCount request.requestId

/-- The post completes the request, with this status. -/
def Completes (codec : Codec) (t : ContentTables) (requestId : Uuid) (status : RequestStatus)
    (at_ : TimestampMs) : Event → Prop
  | .uploadManifests principal commandId manifests now =>
      ∃ request, principal.role.canIngest ∧ manifests ≠ [] ∧
        t.loadCommandRequest commandId principal.clientId = some request ∧
        request.expiredAt now = true ∧
        requestId = request.requestId ∧ status = .contentExpired ∧ at_ = now
  | .uploadChunk principal commandId chunk now =>
      (∃ request, principal.role.canIngest ∧ chunk.Valid codec ∧
        t.loadCommandRequest commandId principal.clientId = some request ∧
        request.requestId = chunk.requestId ∧ request.expiredAt now = true ∧
        requestId = request.requestId ∧ status = .contentExpired ∧ at_ = now) ∨
      ∃ request manifest t₁ assembled uncompressed,
        Finishes codec principal commandId chunk now t request manifest t₁ assembled uncompressed ∧
        countsForAll request manifest assembled uncompressed now t₁ = true ∧
        requestId = request.requestId ∧ status = .stored ∧ at_ = now
  | .uploadResult principal commandId result now =>
      ∃ request, principal.role.canIngest ∧
        t.loadCommandRequest commandId principal.clientId = some request ∧
        request.requestId = result.requestId ∧
        requestId = result.requestId ∧ status = requestStatusOf result.status ∧ at_ = now
  | _ => False

/-- The post stores an object of the request, which still lacks others. -/
def PutsBack (codec : Codec) (t : ContentTables) (requestId : Uuid) : Event → Prop
  | .uploadChunk principal commandId chunk now =>
      ∃ request manifest t₁ assembled uncompressed,
        Finishes codec principal commandId chunk now t request manifest t₁ assembled uncompressed ∧
        countsForAll request manifest assembled uncompressed now t₁ = false ∧
        requestId = request.requestId
  | _ => False

/-- A decided request is written only with what its row says already. -/
structure Spares (codec : Codec) (db : Database) (event : Event) : Prop where
  completes : ∀ requestId status at_, Completes codec db.content requestId status at_ event →
    ∀ row, db.content.contentRequests.get? requestId = some row → row.outcome.isSome →
      row.decision = (status, some status, some at_)
  putsBack : ∀ requestId, PutsBack codec db.content requestId event →
    ∀ row, db.content.contentRequests.get? requestId = some row → row.outcome.isSome →
      row.status = .partialUpload

/-- The event leaves every decision that has been made. -/
def KeepsDecisions (codec : Codec) (db : Database) (event : Event) : Prop :=
  ∀ requestId row, db.content.contentRequests.get? requestId = some row → row.outcome.isSome →
    ∃ row', (step codec db event).content.contentRequests.get? requestId = some row' ∧
      row'.decision = row.decision

/-! ## What the branches do -/

section Branches
variable {codec : Codec} {db : Database} {t t₁ : ContentTables} {event : Event}
  {requestId : Uuid} {status : RequestStatus} {at_ now : TimestampMs}

/-- Storing an object completes the request or puts it back, by the count of its links. -/
theorem contentRequests_storeObject {request : ContentRequest} {manifest : ContentObjectManifest}
    {assembled uncompressed : Bytes} :
    (t.storeObject request manifest assembled uncompressed now).contentRequests =
      if countsForAll request manifest assembled uncompressed now t then
        (t.completeRequestAndCommand request.requestId .stored now).contentRequests
      else t.contentRequests.modify request.requestId fun row =>
        { row with status := .partialUpload } := by
  simp only [storeObject, countsForAll, decide_eq_true_eq]
  rw [apply_ite ContentTables.contentRequests]
  rfl

/-- A chunk that finishes an object stores it. -/
theorem content_of_finishes {principal : Principal} {commandId : Uuid}
    {chunk : ContentUploadChunk} {request : ContentRequest} {manifest : ContentObjectManifest}
    {assembled uncompressed : Bytes} (h : Finishes codec principal commandId chunk now db.content
      request manifest t₁ assembled uncompressed) :
    (step codec db (.uploadChunk principal commandId chunk now)).content =
      t₁.storeObject request manifest assembled uncompressed now := by
  rcases h.upserted with ⟨duplicate, hupsert⟩
  have hfinish : finishObject codec request manifest chunk duplicate now t₁ = .ok _ :=
    finishObject_eq_ok.mpr (.inr ⟨h.complete, assembled, uncompressed, h.assembles,
    h.decoded, h.digest, h.compressedBytes, h.uncompressedBytes, rfl⟩)
  have hok : uploadChunk codec principal commandId chunk now db.content = .ok _ :=
    uploadChunk_eq_ok.mpr (.inl ⟨request, manifest, h.accepts, duplicate, t₁, hupsert, hfinish⟩)
  rw [step, hok]
  rfl

theorem contentRequests_upsertChunkRow {chunk : ContentUploadChunk} {duplicate : Bool}
    (h : t.upsertChunkRow chunk now = .ok (duplicate, t₁)) :
    t₁.contentRequests = t.contentRequests := by
  rcases upsertChunkRow_eq_ok.mp h with ⟨row, -, -, -, -, heq⟩ | ⟨-, -, heq⟩ <;> cases heq <;> rfl

theorem contentRequests_of_completes
    (h : Completes codec db.content requestId status at_ event) :
    (step codec db event).content.contentRequests =
      (db.content.completeRequestAndCommand requestId status at_).contentRequests := by
  cases event with
  | ingest principal body now => cases h
  | createContentRequest principal taskRef parts expiresAtMs requestId commandId now => cases h
  | uploadManifests principal commandId manifests now =>
      rcases h with ⟨request, hrole, hne, hload, hexpired, rfl, rfl, rfl⟩
      have hok : uploadManifests principal commandId manifests at_ db.content = .ok _ :=
        uploadManifests_eq_ok.mpr (.inr ⟨request, hrole, hne, hload, hexpired, rfl⟩)
      rw [step, hok, commit]
  | uploadChunk principal commandId chunk now =>
      rcases h with ⟨request, hrole, hvalid, hload, hid, hexpired, rfl, rfl, rfl⟩ |
        ⟨request, manifest, t₁, assembled, uncompressed, hfinishes, hcount, rfl, rfl, rfl⟩
      · have hok : uploadChunk codec principal commandId chunk at_ db.content = .ok _ :=
          uploadChunk_eq_ok.mpr (.inr ⟨request, hrole, hvalid, hload, hid, hexpired, rfl⟩)
        rw [step, hok]
        rfl
      · rcases hfinishes.upserted with ⟨duplicate, hupsert⟩
        rw [content_of_finishes hfinishes, contentRequests_storeObject, if_pos hcount]
        simp only [completeRequestAndCommand, contentRequests_upsertChunkRow hupsert]
  | uploadResult principal commandId result now =>
      rcases h with ⟨request, hrole, hload, hid, rfl, rfl, rfl⟩
      have hok : uploadResult principal commandId result at_ db.content = .ok _ :=
        uploadResult_eq_ok.mpr ⟨hrole, request, hload, hid, rfl⟩
      rw [step, hok, commit]

theorem contentRequests_of_putsBack (h : PutsBack codec db.content requestId event) :
    (step codec db event).content.contentRequests =
      db.content.contentRequests.modify requestId fun row =>
        { row with status := .partialUpload } := by
  cases event with
  | uploadChunk principal commandId chunk now =>
      rcases h with ⟨request, manifest, t₁, assembled, uncompressed, hfinishes, hcount, rfl⟩
      rcases hfinishes.upserted with ⟨duplicate, hupsert⟩
      rw [content_of_finishes hfinishes, contentRequests_storeObject, hcount,
        if_neg (by simp), contentRequests_upsertChunkRow hupsert]
  | _ => cases h

/-- One of these branches is taken, or every row stays. -/
theorem step_contentRequests_cases (codec : Codec) (db : Database) (event : Event) :
    (∃ requestId status at_, Completes codec db.content requestId status at_ event) ∨
    (∃ requestId, PutsBack codec db.content requestId event) ∨
    ∀ requestId row, db.content.contentRequests.get? requestId = some row →
      (step codec db event).content.contentRequests.get? requestId = some row := by
  cases event with
  | ingest principal body now =>
      refine .inr (.inr fun requestId row hrow => ?_)
      rw [step, ingest_content, hrow]
  | createContentRequest principal taskRef parts expiresAtMs requestId commandId now =>
      refine .inr (.inr fun id row hrow => ?_)
      rw [step]
      cases hreply : Server.createContentRequest db.tasks principal taskRef parts expiresAtMs
        requestId commandId now db.content with
      | error status => exact hrow
      | ok t =>
          rcases createContentRequest_eq_ok.mp hreply with ⟨task, haccepts, rfl⟩
          have hne : id ≠ requestId := by
            rintro rfl
            simp [haccepts.requestId] at hrow
          simpa [commit, withContentRequest, contentRequestFor, Table.get?_put_of_ne hne] using hrow
  | uploadManifests principal commandId manifests now =>
      rw [step]
      cases hreply : Server.uploadManifests principal commandId manifests now db.content with
      | error status => exact .inr (.inr fun _ _ hrow => hrow)
      | ok t =>
          rcases uploadManifests_eq_ok.mp hreply with
            ⟨request, -, rfl⟩ | ⟨request, hrole, hne, hload, hexpired, -⟩
          · refine .inr (.inr fun id row hrow => ?_)
            rw [commit, (insertManifests_frame request.clientId now manifests).1, hrow]
          · exact .inl ⟨_, _, _, request, hrole, hne, hload, hexpired, rfl, rfl, rfl⟩
  | uploadChunk principal commandId chunk now =>
      rw [step]
      cases hreply : Server.uploadChunk codec principal commandId chunk now db.content with
      | error status => exact .inr (.inr fun _ _ hrow => hrow)
      | ok r =>
          rcases uploadChunk_eq_ok.mp hreply with
            ⟨request, manifest, haccepts, duplicate, t₁, hupsert, hfinish⟩ |
            ⟨request, hrole, hvalid, hload, hid, hexpired, -⟩
          · rcases finishObject_eq_ok.mp hfinish with
              ⟨-, rfl⟩ | ⟨hcomplete, assembled, uncompressed, hassembled, hdecode, hsha, hlen,
                hlen', -⟩
            · refine .inr (.inr fun id row hrow => ?_)
              simpa [commit, Except.map, contentRequests_upsertChunkRow hupsert] using hrow
            · have hfinishes : Finishes codec principal commandId chunk now db.content request
                  manifest t₁ assembled uncompressed :=
                ⟨haccepts, ⟨duplicate, hupsert⟩, hcomplete, hassembled, hdecode, hsha, hlen, hlen'⟩
              cases hcount : countsForAll request manifest assembled uncompressed now t₁ with
              | true =>
                  exact .inl ⟨_, _, _, .inr ⟨request, manifest, t₁, assembled, uncompressed,
                    hfinishes, hcount, rfl, rfl, rfl⟩⟩
              | false =>
                  exact .inr (.inl ⟨_, request, manifest, t₁, assembled, uncompressed, hfinishes,
                    hcount, rfl⟩)
          · exact .inl ⟨_, _, _, .inl ⟨request, hrole, hvalid, hload, hid, hexpired, rfl, rfl,
              rfl⟩⟩
  | uploadResult principal commandId result now =>
      rw [step]
      cases hreply : Server.uploadResult principal commandId result now db.content with
      | error status => exact .inr (.inr fun _ _ hrow => hrow)
      | ok t =>
          rcases uploadResult_eq_ok.mp hreply with ⟨hrole, request, hload, hid, -⟩
          exact .inl ⟨_, _, _, request, hrole, hload, hid, rfl, rfl, rfl⟩

theorem get?_completeRequest (r : Uuid) :
    (t.completeRequestAndCommand requestId status at_).contentRequests.get? r =
      if r = requestId then (t.contentRequests.get? r).map fun row =>
        { row with status, outcome := some status, completedAtMs := some at_ }
      else t.contentRequests.get? r := by
  rw [completeRequestAndCommand, Table.get?_modify]

/-- An event spares the decided requests exactly when their decisions are the same after it. -/
theorem spares_iff (codec : Codec) (db : Database) (event : Event) :
    Spares codec db event ↔ KeepsDecisions codec db event := by
  constructor
  · intro hspares requestId row hrow hdecided
    rcases step_contentRequests_cases codec db event with
      ⟨r, status, at_, hcompletes⟩ | ⟨r, hputsBack⟩ | hstays
    · rw [contentRequests_of_completes hcompletes, get?_completeRequest]
      split
      · rename_i hr
        have hsame := hspares.completes r status at_ hcompletes row (hr ▸ hrow) hdecided
        exact ⟨{ row with status, outcome := some status, completedAtMs := some at_ },
          by rw [hrow, Option.map_some], hsame.symm⟩
      · exact ⟨row, hrow, rfl⟩
    · rw [contentRequests_of_putsBack hputsBack, Table.get?_modify]
      split
      · rename_i hr
        have hsame := hspares.putsBack r hputsBack row (hr ▸ hrow) hdecided
        exact ⟨_, by rw [hrow]; rfl, by simp [ContentRequestRow.decision, hsame]⟩
      · exact ⟨row, hrow, rfl⟩
    · exact ⟨row, hstays requestId row hrow, rfl⟩
  · intro hkeeps
    constructor
    · intro r status at_ hcompletes row hrow hdecided
      rcases hkeeps r row hrow hdecided with ⟨row', hrow', hsame⟩
      rw [contentRequests_of_completes hcompletes, get?_completeRequest, if_pos rfl, hrow,
        Option.map_some, Option.some.injEq] at hrow'
      rw [← hsame, ← hrow']
      rfl
    · intro r hputsBack row hrow hdecided
      rcases hkeeps r row hrow hdecided with ⟨row', hrow', hsame⟩
      rw [contentRequests_of_putsBack hputsBack, Table.get?_modify, if_pos rfl, hrow,
        Option.map_some, Option.some.injEq] at hrow'
      rw [← hrow'] at hsame
      exact (Prod.mk.inj hsame).1.symm

end Branches

/-! ## Runs -/

/-- What was decided at some moment of the run has the same decision at every later one. -/
def Final (codec : Codec) (db : Database) (events : List Event) : Prop :=
  ∀ before during, before ++ during <+: events → ∀ requestId row,
    (Run.run (step codec) db before).content.contentRequests.get? requestId = some row →
      row.outcome.isSome →
      ∃ row', (Run.run (step codec) db (before ++ during)).content.contentRequests.get? requestId =
        some row' ∧ row'.decision = row.decision

/-- A run keeps every decision exactly when each of its posts spares the decided requests. -/
theorem decisions_stay_iff (codec : Codec) (db : Database) (events : List Event) :
    Run.Each (step codec) (Spares codec) db events ↔ Final codec db events := by
  rw [Run.each_iff_forall_prefix]
  constructor
  · intro hspares before during hduring requestId row hrow hdecided
    induction during using List.reverseRecOn with
    | nil => exact ⟨row, by rwa [List.append_nil], rfl⟩
    | append_singleton during event ih =>
        rw [← List.append_assoc] at hduring ⊢
        rcases ih ((List.prefix_append _ _).trans hduring) with ⟨row', hrow', hsame⟩
        have hoption : row'.outcome.isSome := by
          rw [(Prod.mk.inj (Prod.mk.inj hsame).2).1]
          exact hdecided
        rcases (spares_iff codec _ event).mp (hspares _ event hduring) requestId row' hrow' hoption
          with ⟨row'', hrow'', hsame'⟩
        exact ⟨row'', by rwa [Run.run_snoc], hsame'.trans hsame⟩
  · intro hfinal done event hdone
    rw [spares_iff]
    intro requestId row hrow hdecided
    have hnext := hfinal done [event] hdone requestId row hrow hdecided
    rwa [Run.run_snoc] at hnext

/-! ## A post after the expiry -/

/-- A request for the response of a task, open until 50. -/
def expiringRequest : ContentRequest where
  requestId := .v7 0
  clientId := "a"
  taskRef := "s0:t:u"
  sessionId := "s0"
  threadId := "t"
  createdAtMs := 20
  expiresAtMs := some 50
  parts := [.response]

/-- The client reports the content stored at 30, and its manifests arrive again at 60. -/
def lateEvents : List Event :=
  [.uploadResult ⟨"a", .client⟩ (.v7 0) ⟨.v7 0, .stored, none⟩ 30,
    .uploadManifests ⟨"a", .client⟩ (.v7 0) [sampleManifest] 60]

/-- The stored request is expired afterwards. -/
theorem not_final_lateManifests : ¬ Final (.numbered [])
    { Database.empty with content := withContentRequest ⟨.v7 0, expiringRequest⟩ .empty }
    lateEvents := by
  intro h
  rcases h [lateEvents[0]] [lateEvents[1]] List.prefix_rfl (.v7 0)
    { contentRequestRowOf expiringRequest with
      status := .stored, outcome := some .stored, completedAtMs := some 30 }
    (by decide +kernel) (by decide) with ⟨row', hrow', hsame⟩
  have hexpired : (Run.run (step (.numbered []))
      { Database.empty with content := withContentRequest ⟨.v7 0, expiringRequest⟩ .empty }
      lateEvents).content.contentRequests.get? (.v7 0) =
        some { contentRequestRowOf expiringRequest with
          status := .contentExpired, outcome := some .contentExpired, completedAtMs := some 60 } := by
    decide +kernel
  rw [show [lateEvents[0]] ++ [lateEvents[1]] = lateEvents from rfl, hexpired,
    Option.some.injEq] at hrow'
  rw [← hrow'] at hsame
  revert hsame
  decide

end Codexwatch.Server
