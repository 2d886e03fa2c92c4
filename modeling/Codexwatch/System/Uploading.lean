import Codexwatch.Server.Arrivals
import Codexwatch.System.Commands
import Codexwatch.System.Flushing

/-!
# The upload loop

`execute_due_command_once` of the client, one request at a time, with everything else that goes
on in between: other requests to the server, polls and their answers, content that is stored and
cleaned up. A request of the loop may be lost, or its answer. The loop goes on after an answer
that is no error, and gives the command back otherwise.

A run of the loop is a run of the system of commands, in which an upload is one step, and may
fail at any time.

## Main definitions

* `Stage`, `Daemon`, `daemonStep` — the loop.

## Main results

* `commands_run` — a run of the loop is a run of the commands.
-/
namespace Codexwatch.System.Uploading

open Protocol Relational Client Commands
open Server (Principal Database StatusCode contentReply)
open Reporting (Fate)

/-! ## The loop -/

/-- What the loop does next. -/
inductive Stage
  | idle
  /-- `post_manifests` -/
  | announcing (work : UploadWork)
  /-- `load_chunks`, for the first of the manifests that are left -/
  | loading (work : UploadWork) (manifests : List ContentObjectManifest)
  /-- `post_chunk` -/
  | posting (work : UploadWork) (chunks : List ContentUploadChunk)
      (manifests : List ContentObjectManifest)
  /-- `post_upload_result` -/
  | telling (commandId : Uuid) (result : ContentUploadResult)
  /-- `complete_command` -/
  | completing (commandId : Uuid) (result : ContentUploadResult)

/-- The result that an upload ends with. -/
def storedResult (work : UploadWork) : ContentUploadResult := ⟨work.requestId, .stored, none⟩

def stageOf : UploadPreparation → Stage
  | .ready work => .announcing work
  | .expired commandId result => .telling commandId result

structure Daemon where
  server : Database
  responses : List Server.CommandPollResponse
  client : Contents
  stage : Stage
  completed : List Uuid

/-- The clocks and the network at one step of the loop. -/
structure Act where
  fate : Fate
  now : OffsetDateTime
  serverNow : TimestampMs

inductive DaemonEvent
  | act (a : Act)
  /-- The process ends and is started again. -/
  | crash
  | other (e : Commands.Event)

/-- The steps that are the loop's own. -/
def isOwn : Commands.Event → Bool
  | .start _ | .report _ | .complete _ | .fail .. | .abandon => true
  | _ => false

section Loop
variable (codec : Codec) (token : Principal) (describe : StatusCode → String)

/-- The outcome of a request, and the database after it. -/
def post (a : Act) (event : Server.Event) (server : Database) : Except String Unit × Database :=
  match a.fate with
  | .requestLost error => (.error error, server)
  | .replyLost error => (.error error, Server.step codec server event)
  | .answered =>
      match contentReply codec server event with
      | .ok _ => (.ok (), Server.step codec server event)
      | .error status => (.error (describe status), Server.step codec server event)

/-- After a request of an upload: the next stage, or the command is given back. -/
def afterPost (a : Act) (event : Server.Event) (commandId : Uuid) (next : Stage) (d : Daemon) :
    Daemon :=
  match post codec describe a event d.server with
  | (.ok _, server) => { d with server, stage := next }
  | (.error error, server) =>
      { d with
        server
        client := failCommand codec d.client commandId error true a.now
        stage := .idle }

def act (a : Act) (d : Daemon) : Daemon :=
  match d.stage with
  | .idle =>
      match nextDueCommand d.client a.now with
      | none => d
      | some stored =>
          let (preparation, client) := prepareUpload d.client stored.command (ts a.now)
          { d with client, stage := stageOf preparation }
  | .announcing work =>
      afterPost codec describe a
        (.uploadManifests token work.commandId work.manifests a.serverNow) work.commandId
        (.loading work work.manifests) d
  | .loading work [] => { d with stage := .telling work.commandId (storedResult work) }
  | .loading work (manifest :: manifests) =>
      match d.client.files.loadChunks codec manifest.objectSha256 manifest.requestId with
      | none => { d with stage := .idle }
      | some chunks => { d with stage := .posting work chunks manifests }
  | .posting work [] manifests => { d with stage := .loading work manifests }
  | .posting work (chunk :: chunks) manifests =>
      afterPost codec describe a (.uploadChunk token work.commandId chunk a.serverNow)
        work.commandId (.posting work chunks manifests) d
  | .telling commandId result =>
      match post codec describe a (.uploadResult token commandId result a.serverNow) d.server with
      | (.ok _, server) => { d with server, stage := .completing commandId result }
      | (.error _, server) => { d with server, stage := .idle }
  | .completing commandId result =>
      { d with
        client := completeCommand d.client commandId result false (ts a.now)
        stage := .idle
        completed := commandId :: d.completed }

/-- What the commands' system sees of a stage. -/
def Stage.execution : Stage → Execution
  | .idle => .idle
  | .announcing work | .loading work _ | .posting work _ _ =>
      .uploading work.commandId (storedResult work)
  | .telling commandId result => .uploading commandId result
  | .completing commandId result => .reported commandId result

@[simp] theorem execution_idle : Stage.idle.execution = .idle := rfl

@[simp] theorem execution_telling (commandId : Uuid) (result : ContentUploadResult) :
    (Stage.telling commandId result).execution = .uploading commandId result := rfl

@[simp] theorem execution_completing (commandId : Uuid) (result : ContentUploadResult) :
    (Stage.completing commandId result).execution = .reported commandId result := rfl

@[simp] theorem execution_stageOf (preparation : UploadPreparation) :
    (stageOf preparation).execution =
      .uploading (resultOf preparation).1 (resultOf preparation).2 := by
  cases preparation <;> rfl

def Daemon.world (d : Daemon) : Commands.World where
  server := d.server
  responses := d.responses
  client := d.client
  execution := d.stage.execution
  completed := d.completed

def daemonStep (d : Daemon) : DaemonEvent → Daemon
  | .act a => act codec token describe a d
  | .crash => { d with stage := .idle }
  | .other e =>
      if isOwn e then d
      else
        let w := Commands.step codec token d.world e
        { d with server := w.server, responses := w.responses, client := w.client }

/-! ## A run of the commands -/

/-- The steps that a request of the loop is, before what follows from its outcome. -/
def postEvents (a : Act) (event : Server.Event) : List Commands.Event :=
  match a.fate with
  | .requestLost _ => []
  | .replyLost _ | .answered => [.server event]

def afterPostEvents (a : Act) (event : Server.Event) (d : Daemon) : List Commands.Event :=
  postEvents a event ++
    match (post codec describe a event d.server).1 with
    | .ok _ => []
    | .error error => [.fail error a.now]

def actEvents (a : Act) (d : Daemon) : List Commands.Event :=
  match d.stage with
  | .idle => [.start a.now]
  | .announcing work =>
      afterPostEvents codec describe a
        (.uploadManifests token work.commandId work.manifests a.serverNow) d
  | .loading _ [] => []
  | .loading _ (manifest :: _) =>
      match d.client.files.loadChunks codec manifest.objectSha256 manifest.requestId with
      | none => [.abandon]
      | some _ => []
  | .posting _ [] _ => []
  | .posting work (chunk :: _) _ =>
      afterPostEvents codec describe a (.uploadChunk token work.commandId chunk a.serverNow) d
  | .telling commandId result =>
      match (post codec describe a (.uploadResult token commandId result a.serverNow)
        d.server).1 with
      | .ok _ => [.report a.serverNow]
      | .error _ =>
          postEvents a (.uploadResult token commandId result a.serverNow) ++ [.abandon]
  | .completing _ _ => [.complete a.now]

def eventsOf (d : Daemon) : DaemonEvent → List Commands.Event
  | .act a => actEvents codec token describe a d
  | .crash => [.abandon]
  | .other e => if isOwn e then [] else [e]

variable {codec token describe}

/-- The client takes a request for done only when the server has done it. -/
theorem post_eq_ok {a : Act} {event : Server.Event} {server server' : Database} :
    post codec describe a event server = (.ok (), server') ↔
      (∃ t, contentReply codec server event = .ok t) ∧ a.fate = .answered ∧
        server' = Server.step codec server event := by
  rw [post]
  cases hfate : a.fate with
  | requestLost error => simp
  | replyLost error => simp
  | answered => cases contentReply codec server event <;> simp [eq_comm]

variable (token describe) in
theorem run_postEvents (a : Act) (event : Server.Event) (w : Commands.World) :
    Run.run (Commands.step codec token) w (postEvents a event) =
      { w with server := (post codec describe a event w.server).2 } := by
  rw [postEvents, post]
  cases a.fate with
  | requestLost error => rfl
  | replyLost error => rfl
  | answered => cases contentReply codec w.server event <;> rfl

theorem world_afterPost (a : Act) (event : Server.Event) (commandId : Uuid) (next : Stage)
    (d : Daemon) (result : ContentUploadResult)
    (hstage : d.stage.execution = .uploading commandId result)
    (hnext : next.execution = .uploading commandId result) :
    (afterPost codec describe a event commandId next d).world =
      Run.run (Commands.step codec token) d.world (afterPostEvents codec describe a event d) := by
  rw [afterPostEvents, Run.run_append, run_postEvents token describe]
  have hserver : d.world.server = d.server := rfl
  rw [afterPost, hserver]
  rcases post codec describe a event d.server with ⟨answer, server⟩
  cases answer with
  | ok => simp [Daemon.world, hstage, hnext]
  | error error => simp [Daemon.world, Commands.step, hstage]

theorem world_act (a : Act) (d : Daemon) :
    (act codec token describe a d).world =
      Run.run (Commands.step codec token) d.world (actEvents codec token describe a d) := by
  rw [act, actEvents]
  cases hstage : d.stage with
  | idle =>
      cases hdue : nextDueCommand d.client a.now with
      | none => simp [Commands.step, Daemon.world, hstage, hdue]
      | some stored => simp [Commands.step, Daemon.world, hstage, hdue]
  | announcing work =>
      exact world_afterPost a _ work.commandId _ d (storedResult work) (by rw [hstage]; rfl) rfl
  | loading work manifests =>
      cases manifests with
      | nil => simp [Daemon.world, hstage, Stage.execution]
      | cons manifest manifests =>
          cases hchunks : d.client.files.loadChunks codec manifest.objectSha256
            manifest.requestId with
          | none => simp [Daemon.world, Commands.step, hchunks]
          | some chunks => simp [Daemon.world, hstage, hchunks, Stage.execution]
  | posting work chunks manifests =>
      cases chunks with
      | nil => simp [Daemon.world, hstage, Stage.execution]
      | cons chunk chunks =>
          exact world_afterPost a _ work.commandId _ d (storedResult work) (by rw [hstage]; rfl)
            rfl
  | telling commandId result =>
      rcases hpost : post codec describe a (.uploadResult token commandId result a.serverNow)
        d.server with ⟨answer, server⟩
      cases answer with
      | ok =>
          rcases post_eq_ok.mp hpost with ⟨⟨t, ht⟩, -, rfl⟩
          have hreply : Server.uploadResult token commandId result a.serverNow d.server.content =
              .ok t := ht
          simp [hpost, Daemon.world, Commands.step, hstage, hreply, Server.step, Server.commit]
      | error error =>
          simp only [hpost, Run.run_append, run_postEvents token describe]
          simp [hpost, Daemon.world, Commands.step]
  | completing commandId result => simp [Commands.step, Daemon.world, hstage]

/-- What is not its own does not move the loop. -/
theorem step_other {e : Commands.Event} (h : isOwn e = false) (w : Commands.World) :
    (Commands.step codec token w e).execution = w.execution ∧
      (Commands.step codec token w e).completed = w.completed := by
  cases e with
  | server | lose | cleanup => exact ⟨rfl, rfl⟩
  | poll principal now =>
      rw [Commands.step]
      split <;> exact ⟨rfl, rfl⟩
  | deliver response now =>
      rw [Commands.step]
      split <;> exact ⟨rfl, rfl⟩
  | store input =>
      rw [Commands.step]
      split <;> exact ⟨rfl, rfl⟩
  | start | report | complete | fail | abandon => cases h

theorem world_step (d : Daemon) (e : DaemonEvent) :
    (daemonStep codec token describe d e).world =
      Run.run (Commands.step codec token) d.world (eventsOf codec token describe d e) := by
  cases e with
  | act a => exact world_act a d
  | crash => rfl
  | other e =>
      rw [daemonStep, eventsOf]
      cases hown : isOwn e with
      | true => rfl
      | false =>
          simp only [Bool.false_eq_true, if_false, Run.run_cons, Run.run_nil]
          have hother : (Commands.step codec token d.world e).execution = d.stage.execution ∧
              (Commands.step codec token d.world e).completed = d.completed := step_other hown _
          generalize Commands.step codec token d.world e = w at hother ⊢
          rcases w with ⟨server, responses, client, _, _⟩
          rcases hother with ⟨rfl, rfl⟩
          rfl

/-- A run of the loop is a run of the commands. -/
theorem commands_run (d : Daemon) (es : List DaemonEvent) :
    (Run.run (daemonStep codec token describe) d es).world =
      Run.run (Commands.step codec token) d.world
        (Run.trace (daemonStep codec token describe) (eventsOf codec token describe) d es) :=
  have hstep (d : Daemon) (e : DaemonEvent) (_ : True) :
      (daemonStep codec token describe d e).world =
        Run.run (Commands.step codec token) d.world (eventsOf codec token describe d e) :=
    world_step d e
  Run.view_run hstep (Run.each_iff_forall_prefix.mpr fun _ _ _ => trivial)

end Loop

end Codexwatch.System.Uploading
