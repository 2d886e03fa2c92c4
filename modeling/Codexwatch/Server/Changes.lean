import Codexwatch.Server.Api

/-!
# What a transaction does to full content

The handlers and the command for content requests change the tables of full content in few
ways. `change_handle` says them once, with what was checked before; an invariant of the
service is one case for each.

## Main definitions

* `Change` — the ways.
* `Write` — what an event does to the database as a whole.
* `Api.content_run`, `Api.database_run` — what these keep is kept by every run.
-/
namespace Codexwatch.Server

open Protocol Relational Check ContentTables

/-- A status that a request is completed with. -/
def RequestStatus.isDecided : RequestStatus → Bool
  | .stored | .contentExpired | .rejected => true
  | .pending | .partialUpload => false

/-- What a request of the principal does to the tables, with the commands that it is sent. -/
inductive Change (codec : Codec) (tasks : Table String TaskRow) (principal : Principal)
    (now : TimestampMs) (t : ContentTables) : List ContentRequestCommand → ContentTables → Prop
  | none : Change codec tasks principal now t [] t
  | polled :
      Change codec tasks principal now t
        ((pendingCommands t principal.clientId).map fun r => r.2.payloadJson)
        (markDispatched t ((pendingCommands t principal.clientId).map Prod.fst) now)
  | completed {commandId request status} (hdecided : status.isDecided)
      (hload : t.loadCommandRequest commandId principal.clientId = some request) :
      Change codec tasks principal now t []
        (t.completeRequestAndCommand request.requestId status now)
  | announced {commandId manifests request}
      (h : t.AcceptsManifests principal commandId manifests now request) :
      Change codec tasks principal now t [] (t.insertManifests manifests request.clientId now)
  | kept {commandId chunk request manifest duplicate t₁}
      (h : AcceptsChunk codec principal commandId chunk now t request manifest)
      (hupsert : t.upsertChunkRow chunk now = .ok (duplicate, t₁)) :
      Change codec tasks principal now t [] t₁
  | finished {commandId chunk request manifest t₁ assembled uncompressed}
      (h : Finishes codec principal commandId chunk now t request manifest t₁ assembled
        uncompressed) :
      Change codec tasks principal now t []
        (t₁.storeObject request manifest assembled uncompressed now)
  | requested {taskRef parts expiresAtMs requestId commandId row}
      (h : AcceptsContentRequest tasks principal taskRef parts expiresAtMs requestId commandId now t
        row) :
      Change codec tasks principal now t []
        (withContentRequest
          ⟨commandId, contentRequestFor row taskRef parts expiresAtMs requestId now⟩
          (withConversation (contentRequestFor row taskRef parts expiresAtMs requestId now) t))

/-- The commands that a reply sends. -/
def Reply.sent : Reply → List ContentRequestCommand
  | .commands response => response.commands
  | _ => []

section Changes
variable {codec : Codec} {db : Database} {principal : Principal} {now : TimestampMs}

theorem change_createContentRequest {taskRef : String} {parts : List ContentPart}
    {expiresAtMs : Option TimestampMs} {requestId commandId : Uuid} {t : ContentTables}
    (h : createContentRequest db.tasks principal taskRef parts expiresAtMs requestId commandId now
      db.content = .ok t) : Change codec db.tasks principal now db.content [] t := by
  obtain ⟨row, haccepts, rfl⟩ := createContentRequest_eq_ok.mp h
  exact .requested haccepts

/-- A handler changes full content in one of the ways. -/
theorem change_handle (codec : Codec) (db : Database) (principal : Principal) (now : TimestampMs)
    (freshRequest freshCommand : Uuid) (call : Call) :
    Change codec db.tasks principal now db.content
      (handle codec db principal now freshRequest freshCommand call).1.sent
      (handle codec db principal now freshRequest freshCommand call).2.content := by
  have hanswer {α : Type} {reply : α → Reply} {r : Except StatusCode (α × ContentTables)}
      (hr : ∀ a t, r = .ok (a, t) →
        Change codec db.tasks principal now db.content (reply a).sent t) :
      Change codec db.tasks principal now db.content (answer db reply r).1.sent
        (answer db reply r).2.content := by
    rcases answer_cases db reply r with ⟨status, -, heq⟩ | ⟨a, t, hok, heq⟩
    · rw [heq]
      exact .none
    · rw [heq]
      exact hr a t hok
  cases call with
  | ingest body =>
      rw [handle, ingest_content]
      exact .none
  | query request =>
      rw [handle]
      cases respond db principal request <;> exact .none
  | nextCommand wait =>
      refine hanswer fun response t ht => ?_
      rw [nextCommand, bind_eq_ok] at ht
      obtain ⟨-, -, ht⟩ := ht
      cases ht
      exact .polled
  | uploadManifests commandId manifests =>
      refine hanswer fun _ t ht => ?_
      obtain ⟨t', ht', heq⟩ := map_eq_ok.mp ht
      cases heq
      rcases uploadManifests_eq_ok.mp ht' with
        ⟨request, haccepts, rfl⟩ | ⟨request, -, -, hload, -, rfl⟩
      · exact .announced haccepts
      · exact .completed rfl hload
  | uploadChunk commandId chunk =>
      refine hanswer fun result t ht => ?_
      rcases uploadChunk_eq_ok.mp ht with
        ⟨request, manifest, haccepts, duplicate, t₁, hupsert, hfinish⟩ |
        ⟨request, -, -, hload, -, -, heq⟩
      · rcases finishObject_eq_ok.mp hfinish with
          ⟨-, heq⟩ | ⟨hcomplete, assembled, uncompressed, hassembled, hdecode, hsha, hlen, hlen', heq⟩
        · cases heq
          exact .kept haccepts hupsert
        · cases heq
          exact .finished ⟨haccepts, ⟨duplicate, hupsert⟩, hcomplete, hassembled, hdecode, hsha,
            hlen, hlen'⟩
      · cases heq
        exact .completed rfl hload
  | uploadResult commandId result =>
      refine hanswer fun _ t ht => ?_
      obtain ⟨t', ht', heq⟩ := map_eq_ok.mp ht
      cases heq
      obtain ⟨-, request, hload, hid, rfl⟩ := uploadResult_eq_ok.mp ht'
      rw [← hid]
      refine .completed ?_ hload
      cases result.status <;> rfl
  | createContentRequest taskRef parts expiresAtMs =>
      refine hanswer fun _ t ht => ?_
      obtain ⟨t', ht', heq⟩ := map_eq_ok.mp ht
      cases heq
      exact change_createContentRequest ht'

end Changes

/-! ## Events of the service -/

/-- What an event does to the database. -/
inductive Write (db : Database) : Database → Prop
  | none : Write db db
  | content {codec principal now sent t}
      (h : Change codec db.tasks principal now db.content sent t) :
      Write db { db with content := t }
  | client (clientId : String) (now : TimestampMs) :
      Write db (Api.ensureClientExists db clientId now)
  | swept (sweep : Sweep) (now : TimestampMs) : Write db (db.sweep sweep now)
  | ingested {principal batch sha now} (hvalid : batch.Valid) (h : Accepts principal batch db) :
      Write db (applied db batch sha now)

namespace Api

variable {codec : Codec} {s : Service}

theorem content_requestContentCli (codec : Codec) (db : Database) (taskRef : String)
    (parts : List String) (expiresAtMs : Option TimestampMs) (freshRequest freshCommand : Uuid)
    (now : TimestampMs) :
    Change codec db.tasks cli now db.content []
      (requestContentCli db taskRef parts expiresAtMs freshRequest freshCommand now).content := by
  rw [requestContentCli]
  split
  · exact .none
  · rename_i parts' _
    cases hcreated : createContentRequest db.tasks cli taskRef parts' expiresAtMs freshRequest
      freshCommand now db.content with
    | error status => exact .none
    | ok t => exact change_createContentRequest hcreated

theorem content_sweep (db : Database) (sweep : Sweep) (now : TimestampMs) :
    (db.sweep sweep now).content = db.content := by
  cases sweep with
  | ephemera table => cases table <;> rfl
  | _ => rfl

/-- Every event of the service changes full content in one of the ways, or not at all. -/
theorem change_step (codec : Codec) (s : Service) (e : Event) :
    (step codec s e).db.content = s.db.content ∨
      ∃ principal now sent, Change codec s.db.tasks principal now s.db.content sent
        (step codec s e).db.content := by
  cases e with
  | token command =>
      left
      cases command <;> rfl
  | request headers call instant =>
      left
      rw [step]
      split <;> rfl
  | proceed index instant now freshRequest freshCommand =>
      rw [step]
      split
      · exact .inl rfl
      · split
        · exact .inl rfl
        · exact .inr ⟨_, _, _, change_handle _ _ _ _ freshRequest freshCommand _⟩
  | hangUp index => exact .inl rfl
  | requestContent taskRef parts expiresAtMs freshRequest freshCommand now =>
      exact .inr ⟨_, _, _, content_requestContentCli _ s.db taskRef parts expiresAtMs freshRequest
        freshCommand now⟩
  | cleanup sweep now => exact .inl (content_sweep s.db sweep now)

theorem write_handle (codec : Codec) (db : Database) (principal : Principal) (now : TimestampMs)
    (freshRequest freshCommand : Uuid) (call : Call) :
    Write db (handle codec db principal now freshRequest freshCommand call).2 := by
  have hcontent := change_handle codec db principal now freshRequest freshCommand call
  -- the other tables stay
  have hanswer {α : Type} (reply : α → Reply) (r : Except StatusCode (α × ContentTables)) :
      (answer db reply r).2 = { db with content := (answer db reply r).2.content } := by
    rcases answer_cases db reply r with ⟨status, -, heq⟩ | ⟨a, t, -, heq⟩ <;> rw [heq]
  cases call with
  | ingest body =>
      rw [handle]
      rcases ingest_cases codec principal body now db with
        ⟨d, hdecode, haccepts, heq⟩ | ⟨d, receipt, -, -, heq⟩ | ⟨status, heq⟩
      · rw [heq]
        exact .ingested (Codec.valid_of_decode hdecode) haccepts
      · rw [heq]
        exact .none
      · rw [heq]
        exact .none
  | query request => exact .none
  | _ =>
      rw [handle] at hcontent ⊢
      rw [hanswer]
      exact .content hcontent

theorem write_step (e : Event) : Write s.db (step codec s e).db := by
  cases e with
  | token command =>
      cases command with
      | issue clientId token role admin now => exact .client clientId now
      | revoke token now => exact .none
  | request headers call instant =>
      rw [step]
      split <;> exact .none
  | proceed index instant now freshRequest freshCommand =>
      rw [step]
      split
      · exact .none
      · split
        · exact .none
        · exact write_handle codec s.db _ now freshRequest freshCommand _
  | hangUp index => exact .none
  | requestContent taskRef parts expiresAtMs freshRequest freshCommand now =>
      rw [step, requestContentCli]
      split
      · exact .none
      · rename_i parts' _
        cases hok : createContentRequest s.db.tasks cli taskRef parts' expiresAtMs freshRequest
          freshCommand now s.db.content with
        | error status => exact .none
        | ok t =>
            have hchange : Change codec s.db.tasks cli now s.db.content [] t :=
              change_createContentRequest hok
            exact .content hchange
  | cleanup sweep now => exact .swept sweep now

/-- What every write keeps is kept by every run. -/
theorem database_run {I : Database → Prop} (hwrite : ∀ db db', I db → Write db db' → I db')
    (h : I s.db) (es : List Event) : I (Run.run (step codec) s es).db :=
  Run.invariant (I := fun s : Service => I s.db) (fun _ e hs => hwrite _ _ hs (write_step e)) h es

/-- What every change keeps is kept by every step. -/
theorem content_step {I : ContentTables → Prop}
    (hchange : ∀ tasks principal now t sent t', I t →
      Change codec tasks principal now t sent t' → I t')
    (h : I s.db.content) (e : Event) : I (step codec s e).db.content := by
  rcases change_step codec s e with
    heq | ⟨principal, now, sent, hchanged⟩
  · rw [heq]
    exact h
  · exact hchange _ _ _ _ _ _ h hchanged

/-- What every change keeps is kept by every run. -/
theorem content_run {I : ContentTables → Prop}
    (hchange : ∀ tasks principal now t sent t', I t →
      Change codec tasks principal now t sent t' → I t')
    (h : I s.db.content) (es : List Event) : I (Run.run (step codec) s es).db.content :=
  Run.invariant (I := fun s : Service => I s.db.content)
    (fun _ e hs => content_step hchange hs e) h es

end Api

end Codexwatch.Server
