import Codexwatch.Server.Access
import Codexwatch.Server.Cleanup
import Codexwatch.Server.Dispatch
import Codexwatch.Server.Queries

/-!
# The service

The routes of `build_router`, the administrator's commands and the retention task over one
database. A handler authorises its request first and runs its transaction later, and a poll
runs one transaction a second until it finds a command or its time is over. Other requests
and commands come between: a token may be revoked while its request waits.

The extractors of the bodies, which may answer before the handler, and `/healthz`, which
reads no table, are left out.

## Main definitions

* `Call`, `Reply`, `handle` — a route with its arguments, and its transaction.
* `Service`, `Event`, `step` — the service.
* `arrivals` — the requests that came with a good token.
* `audit_run` — who is answered, and what changes the database.
-/
namespace Codexwatch.Server

open Protocol Relational Check Capture

/-! ## Calls -/

/-- A route, with what its request carries. -/
inductive Call
  | ingest (body : Bytes)
  | nextCommand (wait : Option String)
  | uploadManifests (commandId : Uuid) (manifests : List ContentObjectManifest)
  | uploadChunk (commandId : Uuid) (chunk : ContentUploadChunk)
  | uploadResult (commandId : Uuid) (result : ContentUploadResult)
  | createContentRequest (taskRef : String) (parts : List ContentPart)
      (expiresAtMs : Option TimestampMs)
  | query (request : QueryRequest)

inductive Reply
  | ingest (reply : IngestReply)
  | commands (response : CommandPollResponse)
  | uploaded (result : ContentUploadResult)
  | simpleOk
  | query (body : QueryBody)
  | refused (status : StatusCode)

/-- The handler did not do what it was asked. -/
def Reply.isRefusal : Reply → Bool
  | .ingest (.err _) | .refused _ => true
  | _ => false

/-- Whether a handler serves the role. -/
def Call.allows (role : TokenRole) : Call → Bool
  | .query _ => role.canQuery
  | .createContentRequest .. => role.isAdmin
  | _ => role.canIngest

def Call.isQuery : Call → Bool
  | .query _ => true
  | _ => false

def Call.isPoll : Call → Bool
  | .nextCommand _ => true
  | _ => false

/-- The reply with the database after it. -/
def answer {α : Type} (db : Database) (reply : α → Reply) :
    Except StatusCode (α × ContentTables) → Reply × Database
  | .ok (a, content) => (reply a, { db with content })
  | .error status => (.refused status, db)

/-- The transaction of a handler. The identifiers are the fresh ones of a content request. -/
def handle (codec : Codec) (db : Database) (principal : Principal) (now : TimestampMs)
    (freshRequest freshCommand : Uuid) : Call → Reply × Database
  | .ingest body =>
      let result := ingest codec principal body now db
      (.ingest result.1, result.2)
  | .nextCommand _ => answer db .commands (nextCommand principal now db.content)
  | .uploadManifests commandId manifests =>
      answer db (fun () => .simpleOk)
        ((uploadManifests principal commandId manifests now db.content).map fun t => ((), t))
  | .uploadChunk commandId chunk =>
      answer db .uploaded (uploadChunk codec principal commandId chunk now db.content)
  | .uploadResult commandId result =>
      answer db (fun () => .simpleOk)
        ((uploadResult principal commandId result now db.content).map fun t => ((), t))
  | .createContentRequest taskRef parts expiresAtMs =>
      answer db (fun () => .simpleOk)
        ((createContentRequest db.tasks principal taskRef parts expiresAtMs freshRequest
          freshCommand now db.content).map fun t => ((), t))
  | .query request =>
      (match respond db principal request with
        | .ok body => .query body
        | .error status => .refused status, db)

section Handle
variable {codec : Codec} {db : Database} {principal : Principal} {now : TimestampMs}
  {freshRequest freshCommand : Uuid} {call : Call}

theorem answer_cases {α : Type} (db : Database) (reply : α → Reply)
    (r : Except StatusCode (α × ContentTables)) :
    (∃ status, r = .error status ∧ answer db reply r = (.refused status, db)) ∨
      ∃ a content, r = .ok (a, content) ∧ answer db reply r = (reply a, { db with content }) := by
  cases r with
  | error status => exact .inl ⟨status, rfl, rfl⟩
  | ok p => exact .inr ⟨p.1, p.2, rfl, rfl⟩

/-- What is refused changes nothing. -/
theorem handle_of_refusal
    (h : (handle codec db principal now freshRequest freshCommand call).1.isRefusal) :
    (handle codec db principal now freshRequest freshCommand call).2 = db := by
  have hanswer {α : Type} {reply : α → Reply} {r : Except StatusCode (α × ContentTables)}
      (hreply : ∀ a, (reply a).isRefusal = false) (hr : (answer db reply r).1.isRefusal) :
      (answer db reply r).2 = db := by
    rcases answer_cases db reply r with ⟨status, -, heq⟩ | ⟨a, content, -, heq⟩
    · rw [heq]
    · rw [heq, hreply a] at hr
      cases hr
  cases call with
  | ingest body =>
      rw [handle] at h ⊢
      rcases ingest_cases codec principal body now db with
        ⟨d, -, -, heq⟩ | ⟨d, receipt, -, -, heq⟩ | ⟨status, heq⟩
      · rw [heq] at h
        cases h
      · rw [heq]
      · rw [heq]
  | query request => rfl
  | nextCommand wait => exact hanswer (fun _ => rfl) h
  | uploadManifests commandId manifests => exact hanswer (fun _ => rfl) h
  | uploadChunk commandId chunk => exact hanswer (fun _ => rfl) h
  | uploadResult commandId result => exact hanswer (fun _ => rfl) h
  | createContentRequest taskRef parts expiresAtMs => exact hanswer (fun _ => rfl) h

/-- A query needs a role that may query. -/
theorem canQuery_of_respond {request : QueryRequest} {body : QueryBody}
    (h : respond db principal request = .ok body) : principal.role.canQuery := by
  cases request <;>
    simp only [respond, listTasksInner, taskDetailInner, taskAttemptsInner, taskEventsInner,
      taskErrorsInner, taskPayloadsInner, captureHealthInner, sessionDetailInner, ensureQueryRole,
      map_eq_ok, bind_eq_ok, exists_unit_and, ensure_eq_ok] at h
  all_goals
    obtain ⟨_, ⟨hrole, -⟩, -⟩ := h
    exact hrole

/-- What is not refused was asked for by a role that may ask. -/
theorem allows_of_handle
    (h : (handle codec db principal now freshRequest freshCommand call).1.isRefusal = false) :
    call.allows principal.role := by
  have hanswer {α : Type} {reply : α → Reply} {r : Except StatusCode (α × ContentTables)}
      (hr : (answer db reply r).1.isRefusal = false) : ∃ p, r = .ok p := by
    rcases answer_cases db reply r with ⟨status, -, heq⟩ | ⟨a, content, hok, -⟩
    · rw [heq] at hr
      cases hr
    · exact ⟨_, hok⟩
  cases call with
  | ingest body =>
      change principal.role.canIngest = true
      by_contra hrole
      rw [Bool.not_eq_true] at hrole
      simp [handle, ingest, hrole, Reply.isRefusal] at h
  | query request =>
      cases hrespond : respond db principal request with
      | ok body => exact canQuery_of_respond hrespond
      | error status => simp [handle, hrespond, Reply.isRefusal] at h
  | nextCommand wait =>
      obtain ⟨p, hp⟩ := hanswer h
      rw [nextCommand, ensureClientRole, bind_eq_ok] at hp
      simp only [exists_unit_and, ensure_eq_ok] at hp
      exact hp.1
  | uploadManifests commandId manifests =>
      obtain ⟨p, hp⟩ := hanswer h
      obtain ⟨t, ht, -⟩ := map_eq_ok.mp hp
      rcases uploadManifests_eq_ok.mp ht with ⟨request, haccepts, -⟩ | ⟨request, hrole, -⟩
      · exact haccepts.role
      · exact hrole
  | uploadChunk commandId chunk =>
      obtain ⟨p, hp⟩ := hanswer h
      rcases uploadChunk_eq_ok.mp hp with ⟨request, manifest, haccepts, -⟩ | ⟨request, hrole, -⟩
      · exact haccepts.role
      · exact hrole
  | uploadResult commandId result =>
      obtain ⟨p, hp⟩ := hanswer h
      obtain ⟨t, ht, -⟩ := map_eq_ok.mp hp
      exact (uploadResult_eq_ok.mp ht).1
  | createContentRequest taskRef parts expiresAtMs =>
      obtain ⟨p, hp⟩ := hanswer h
      obtain ⟨t, ht, -⟩ := map_eq_ok.mp hp
      obtain ⟨row, haccepts, -⟩ := createContentRequest_eq_ok.mp ht
      exact haccepts.role

end Handle

/-! ## The service -/

namespace Api

/-- A request that was authorised and is not answered yet. -/
structure Admitted where
  principal : Principal
  call : Call
  /-- When a poll stops to wait. -/
  deadline : ℕ

structure Service where
  db : Database
  apiTokens : Table String TokenRow
  admitted : List Admitted
  /-- What was answered by the handlers. -/
  served : List (Admitted × Reply)

/-- No token is issued yet. -/
def Service.start (db : Database) : Service := ⟨db, .empty, [], []⟩

inductive Event
  | token (command : TokenCommand)
  /-- A request arrives and is authorised; the instant is the one of a monotonic clock. -/
  | request (headers : HeaderMap) (call : Call) (instant : ℕ)
  /-- A transaction of an admitted request. -/
  | proceed (index instant : ℕ) (now : TimestampMs) (freshRequest freshCommand : Uuid)
  /-- The connection of an admitted request is gone, and its handler with it. -/
  | hangUp (index : ℕ)
  | requestContent (taskRef : String) (parts : List String) (expiresAtMs : Option TimestampMs)
      (freshRequest freshCommand : Uuid) (now : TimestampMs)
  | cleanup (sweep : Sweep) (now : TimestampMs)

/-- The seconds that a poll waits. -/
def waitSeconds (wait : Option String) : ℕ := min ((wait.bind (fromStrRadix 10)).getD 0) 30

def deadlineOf (instant : ℕ) : Call → ℕ
  | .nextCommand wait => instant + waitSeconds wait * 1000
  | _ => instant

/-- The round of a poll that goes on: there is no command yet, and time is left. -/
def Admitted.Waits (adm : Admitted) (db : Database) (instant : ℕ) : Prop :=
  adm.call.isPoll ∧ adm.principal.role.canIngest ∧
    pendingCommands db.content adm.principal.clientId = [] ∧ instant < adm.deadline

instance (adm : Admitted) (db : Database) (instant : ℕ) : Decidable (adm.Waits db instant) :=
  inferInstanceAs (Decidable (_ ∧ _))

def parseContentPart (value : String) : Option ContentPart :=
  if value = "request" then some .request
  else if value = "response" then some .response
  else if value = "tool_input" then some .toolInput
  else if value = "tool_output" then some .toolOutput
  else if value = "model_text" then some .modelText
  else none

/-- The principal of the commands. -/
def cli : Principal := ⟨"cli", .admin⟩

/-- `request_content_cli` -/
def requestContentCli (db : Database) (taskRef : String) (parts : List String)
    (expiresAtMs : Option TimestampMs) (freshRequest freshCommand : Uuid) (now : TimestampMs) :
    Database :=
  match parts.mapM parseContentPart with
  | none => db
  | some parts =>
      commit db (createContentRequest db.tasks cli taskRef parts expiresAtMs freshRequest
        freshCommand now db.content)

def ensureClientExists (db : Database) (clientId : String) (now : TimestampMs) : Database :=
  { db with clients := db.clients.insertIgnore clientId now }

def step (codec : Codec) (s : Service) : Event → Service
  | .token command =>
      { s with
        db := match command with
          | .issue clientId _ _ _ now => ensureClientExists s.db clientId now
          | .revoke _ _ => s.db
        apiTokens := command.apply codec s.apiTokens }
  | .request headers call instant =>
      match authorize codec s.apiTokens headers with
      | .error _ => s
      | .ok principal =>
          { s with admitted := s.admitted ++ [⟨principal, call, deadlineOf instant call⟩] }
  | .proceed index instant now freshRequest freshCommand =>
      match s.admitted[index]? with
      | none => s
      | some adm =>
          if adm.Waits s.db instant then s
          else
            let result := handle codec s.db adm.principal now freshRequest freshCommand adm.call
            { s with
              db := result.2
              admitted := s.admitted.eraseIdx index
              served := s.served ++ [(adm, result.1)] }
  | .hangUp index => { s with admitted := s.admitted.eraseIdx index }
  | .requestContent taskRef parts expiresAtMs freshRequest freshCommand now =>
      { s with
        db := requestContentCli s.db taskRef parts expiresAtMs freshRequest freshCommand now }
  | .cleanup sweep now => { s with db := s.db.sweep sweep now }

/-- The administrator's commands, and the cleanup passes. -/
def Event.isCommand : Event → Bool
  | .token _ | .requestContent .. | .cleanup .. => true
  | _ => false

/-! ## Who is answered -/

def Event.tokenCommand? : Event → Option TokenCommand
  | .token command => some command
  | _ => none

/-- The request of the event, if its token is good after these commands. -/
def arrival (codec : Codec) (past : List TokenCommand) : Event → Option Admitted
  | .request headers call instant =>
      (grantedTo codec past headers).map fun principal =>
        ⟨principal, call, deadlineOf instant call⟩
  | _ => none

/-- The requests that come with a token that is good when they arrive. -/
def arrivals (codec : Codec) : List TokenCommand → List Event → List Admitted
  | _, [] => []
  | past, e :: es =>
      (arrival codec past e).toList ++ arrivals codec (past ++ e.tokenCommand?.toList) es

section Audit
variable {codec : Codec} {past : List TokenCommand} {s : Service}

/-- The table of tokens is what the commands so far made it. -/
structure Tracks (codec : Codec) (past : List TokenCommand) (s : Service) : Prop where
  represents : Represents codec past s.apiTokens
  roles : RolesKnown s.apiTokens

/-- No request writes the table of tokens. -/
theorem Tracks.step (h : Tracks codec past s) (e : Event) :
    Tracks codec (past ++ e.tokenCommand?.toList) (step codec s e) := by
  have hkeep {s' : Service} (hs' : s'.apiTokens = s.apiTokens) : Tracks codec (past ++ []) s' :=
    ⟨(List.append_nil past).symm ▸ hs' ▸ h.represents, hs' ▸ h.roles⟩
  cases e with
  | token command => exact ⟨h.represents.apply command, h.roles.apply command⟩
  | request headers call instant =>
      apply hkeep
      rw [Api.step]
      split <;> rfl
  | proceed index instant now freshRequest freshCommand =>
      apply hkeep
      rw [Api.step]
      split
      · rfl
      · split <;> rfl
  | hangUp index => exact hkeep rfl
  | requestContent taskRef parts expiresAtMs freshRequest freshCommand now => exact hkeep rfl
  | cleanup sweep now => exact hkeep rfl

/-- What was admitted, answered or not. -/
def Service.taken (s : Service) : List Admitted := s.served.map Prod.fst ++ s.admitted

open scoped List in
/-- A step takes in what arrives with a good token, and answers what was taken in. -/
theorem taken_step (h : Tracks codec past s) (e : Event) :
    (step codec s e).taken <+~ s.taken ++ (arrival codec past e).toList := by
  have hkeep : s.taken <+~ s.taken ++ [] := by
    rw [List.append_nil]
  cases e with
  | request headers call instant =>
      rw [step, authorize_eq h.represents h.roles, arrival]
      cases grantedTo codec past headers with
      | none => exact hkeep
      | some principal =>
          simp only [Option.elim_some, Service.taken, Option.map_some, Option.toList_some,
            List.append_assoc]
          exact .refl _
  | proceed index instant now freshRequest freshCommand =>
      rw [step]
      split
      · exact hkeep
      · rename_i adm hadm
        split
        · exact hkeep
        · obtain ⟨hindex, hget⟩ := List.getElem?_eq_some_iff.mp hadm
          have hmoved : adm :: s.admitted.eraseIdx index ~ s.admitted :=
            hget ▸ List.getElem_cons_eraseIdx_perm hindex
          simp only [Service.taken, List.map_append, List.map_cons, List.map_nil,
            List.append_assoc, List.singleton_append, arrival, Option.toList_none, List.append_nil]
          exact (hmoved.append_left _).subperm
  | hangUp index =>
      rw [step, arrival, Option.toList_none, List.append_nil]
      · exact ((List.eraseIdx_sublist _ _).append_left _).subperm
      · exact fun _ _ _ h => Event.noConfusion h
  | token command => exact hkeep
  | requestContent taskRef parts expiresAtMs freshRequest freshCommand now => exact hkeep
  | cleanup sweep now => exact hkeep

open scoped List in
/-- In a run, from any start. -/
theorem taken_run (h : Tracks codec past s) (es : List Event) :
    (Run.run (step codec) s es).taken <+~ s.taken ++ arrivals codec past es := by
  induction es generalizing past s with
  | nil =>
      rw [Run.run_nil, arrivals, List.append_nil]
  | cons e es ih =>
      rw [Run.run_cons, arrivals, ← List.append_assoc]
      exact (ih (h.step e)).trans ((List.subperm_append_right _).mpr (taken_step h e))

/-- Only the administrator's commands, cleanup passes and answered requests change the database;
an answer that does is no refusal, and its request is no query. -/
theorem changed_step (e : Event) (h : (step codec s e).db ≠ s.db) :
    e.isCommand ∨ ∃ adm reply, (step codec s e).served = s.served ++ [(adm, reply)] ∧
      reply.isRefusal = false ∧ adm.call.isQuery = false := by
  cases e with
  | request headers call instant =>
      rw [step] at h
      split at h <;> exact absurd rfl h
  | proceed index instant now freshRequest freshCommand =>
      right
      rw [step] at h ⊢
      split at h
      · exact absurd rfl h
      · rename_i adm hadm
        split at h
        · exact absurd rfl h
        · rename_i hwaits
          simp only [if_neg hwaits]
          refine ⟨adm, _, rfl, ?_, ?_⟩
          · by_contra hrefusal
            exact h (handle_of_refusal (by simpa using hrefusal))
          · cases hcall : adm.call with
            | query request =>
                rw [hcall] at h
                exact absurd rfl h
            | _ => rfl
  | hangUp index => exact absurd rfl h
  | _ => exact .inl rfl

theorem role_step (e : Event)
    (h : ∀ r ∈ s.served, r.2.isRefusal = false → r.1.call.allows r.1.principal.role) :
    ∀ r ∈ (step codec s e).served, r.2.isRefusal = false → r.1.call.allows r.1.principal.role := by
  cases e with
  | request headers call instant =>
      rw [step]
      split <;> exact h
  | proceed index instant now freshRequest freshCommand =>
      rw [step]
      split
      · exact h
      · split
        · exact h
        · intro r hr
          rw [List.mem_append, List.mem_singleton] at hr
          rcases hr with hr | rfl
          · exact h r hr
          · exact allows_of_handle
  | _ => exact h

end Audit

/-! ## Runs -/

/-- The token commands among the events. -/
def history (es : List Event) : List TokenCommand := es.filterMap Event.tokenCommand?

open scoped List in
/-- What an audit of the run `es` finds. -/
structure Audited (codec : Codec) (db : Database) (es : List Event) : Prop where
  /-- A token is good for what it was last issued for, unless it was revoked since. -/
  authorised : ∀ headers,
    authorize codec (Run.run (step codec) (.start db) es).apiTokens headers =
      (grantedTo codec (history es) headers).elim (.error .unauthorized) .ok
  /-- What is taken in came with a token that was good when it came, and is answered once. -/
  taken : (Run.run (step codec) (.start db) es).taken <+~ arrivals codec [] es
  /-- What is not refused was asked for by a role that may ask. -/
  role : ∀ r ∈ (Run.run (step codec) (.start db) es).served, r.2.isRefusal = false →
    r.1.call.allows r.1.principal.role
  /-- What changes the database is a command of the administrator, a cleanup pass or a request
  that is answered, not refused, and no query. -/
  changed : ∀ pre e post, es = pre ++ e :: post →
    (Run.run (step codec) (.start db) (pre ++ [e])).db ≠
        (Run.run (step codec) (.start db) pre).db →
      e.isCommand ∨ ∃ adm reply,
        (Run.run (step codec) (.start db) (pre ++ [e])).served =
            (Run.run (step codec) (.start db) pre).served ++ [(adm, reply)] ∧
          reply.isRefusal = false ∧ adm.call.isQuery = false

theorem tracks_run {codec : Codec} {past : List TokenCommand} {s : Service}
    (h : Tracks codec past s) (es : List Event) :
    Tracks codec (past ++ history es) (Run.run (step codec) s es) := by
  induction es generalizing past s with
  | nil =>
      rw [history, List.filterMap_nil, List.append_nil]
      exact h
  | cons e es ih =>
      have hhistory : history (e :: es) = e.tokenCommand?.toList ++ history es := by
        rw [history, history, List.filterMap_cons]
        cases e.tokenCommand? <;> rfl
      rw [Run.run_cons, hhistory, ← List.append_assoc]
      exact ih (h.step e)

theorem tracks_start (codec : Codec) (db : Database) : Tracks codec [] (.start db) :=
  ⟨fun _ => rfl, fun _ _ h => by cases h⟩

theorem audit_run (codec : Codec) (db : Database) (es : List Event) : Audited codec db es where
  authorised headers := by
    have htracks := tracks_run (tracks_start codec db) es
    rw [List.nil_append] at htracks
    exact authorize_eq htracks.represents htracks.roles headers
  taken := taken_run (tracks_start codec db) es
  role := Run.invariant
    (I := fun s : Service =>
      ∀ r ∈ s.served, r.2.isRefusal = false → r.1.call.allows r.1.principal.role)
    (fun _ e h => role_step e h) (by simp [Service.start]) es
  changed := by
    rintro pre e post - h
    rw [Run.run_snoc] at h ⊢
    exact changed_step e h

end Api

end Codexwatch.Server
