import Codexwatch.CaptureEbpf.Programs
import Codexwatch.Client.Evidence
import Codexwatch.Client.Lane
import Codexwatch.Lib.Run

/-!
# Thread exits and the end of a process

The way of an exit record: the kernel runs `try_process_exit` in every thread that
exits, the loader decodes the record, `map_loader_record` of `client/src/ebpf_lane.rs`
makes it the exit of the process that the record names, and the lane ends the tasks of
that process.

No part of the way asks whether the thread was the last one. Nothing is reported of a
live process as long as the records that name it come when it has no thread left
(`timely_of_lastExit`).

The decoder is a parameter: `reportsExit_iff` instantiates it with the loader's, which
reads the wrong bytes, and `reportsExit_iff_of_faithful` with one that does not.

## Main definitions

* `mapLoaderRecord` — the mapping.
* `Machine`, `Machine.step` — threads, ring buffer, channel and lane.
* `LastExit` — the condition on one event.
* `Timely` — what an event reports of a process, it reports after its end.
-/
namespace Codexwatch.System

open Protocol Capture Client CaptureEbpf ReprC Relational

structure TrackedProcess where
  processInstanceId : Uuid
  clientInstanceId : Uuid
  executableSha256 : String
  codexVersion : Option String
  startedAt : OffsetDateTime

/-- `SharedProcessIndex::process` at the time of a call. -/
abbrev ProcessIndex := UInt32 → Option TrackedProcess

def TrackedProcess.summary (tracked : TrackedProcess) (pid : UInt32)
    (exitedAt : Option OffsetDateTime) : ProcessSummary where
  processInstanceId := tracked.processInstanceId
  clientInstanceId := tracked.clientInstanceId
  pid := pid.toNat
  executableSha256 := tracked.executableSha256
  codexVersion := tracked.codexVersion
  startedAt := tracked.startedAt
  exitedAt
  exitCode := none
  signal := none

def mapLoaderRecord (record : OwnedCaptureRecord) (index : ProcessIndex) (now : OffsetDateTime) :
    Option CaptureInput :=
  let pid := record.header.connection.tgid
  (index pid).bind fun tracked =>
    match record.header.kind with
    | .processExec => some (.processObserved (tracked.summary pid none))
    | .processExit => some (.processExit (tracked.summary pid (some now)))
    | _ => none

/-! ## The machine -/

structure Machine (κ σ : Type) [DecidableEq κ] where
  /-- The threads that have started and not exited. -/
  threads : List Thread
  maps : KernelMaps
  /-- `EVENTS` -/
  ring : List (List UInt8)
  /-- The inputs on their way to the lane. -/
  channel : List CaptureInput
  lane : Lane κ σ

inductive MachineEvent
  | start (thread : Thread)
  /-- The record of a tracepoint reaches the ring buffer as an image, or finds it full. -/
  | exec (thread : Thread) (probe : Probe) (image : Option (List UInt8))
  | exit (thread : Thread) (probe : Probe) (image : Option (List UInt8))
  /-- A record of another program. -/
  | output (image : List UInt8)
  | poll (index : ProcessIndex) (now : OffsetDateTime)
  /-- An input of another producer. -/
  | send (input : CaptureInput)
  | handle (m : Moment)

section Machine
variable {κ σ : Type} [DecidableEq κ] (decode : List UInt8 → Option OwnedCaptureRecord)
  (wire : Wire κ σ) (client : ClientInstance) (codec : Codec) (toVec : List Json → Bytes)

def Machine.step (s : Machine κ σ) : MachineEvent → Machine κ σ
  | .start thread => { s with threads := s.threads ++ [thread] }
  | .exec thread probe image =>
    { s with maps := (tryProcessExec s.maps thread probe).2, ring := s.ring ++ image.toList }
  | .exit thread probe image =>
    { s with
      threads := s.threads.filter (· ≠ thread)
      maps := (tryProcessExit s.maps thread probe).2
      ring := s.ring ++ image.toList }
  | .output image => { s with ring := s.ring ++ [image] }
  | .poll index now =>
    match s.ring with
    | [] => s
    | image :: ring =>
      { s with
        ring
        channel := s.channel ++
          ((decode image).bind fun record => mapLoaderRecord record index now).toList }
  | .send input => { s with channel := s.channel ++ [input] }
  | .handle m =>
    match s.channel with
    | [] => s
    | input :: channel =>
      { s with channel, lane := (ingestInput wire client codec toVec m s.lane input).2 }

/-- The process has no thread left. -/
def Ended (threads : List Thread) (pid : ℕ) : Prop := ∀ thread ∈ threads, thread.tgid.toNat ≠ pid

instance (threads : List Thread) (pid : ℕ) : Decidable (Ended threads pid) :=
  inferInstanceAs (Decidable (∀ thread ∈ threads, _))

/-- What the kernel and the other producers do: a thread exits once, a program's record is
what it puts into the ring buffer, and an exit that is found by looking at the processes is
that of a process which is no longer there. -/
def Possible (s : Machine κ σ) : MachineEvent → Prop
  | .start thread => thread ∉ s.threads
  | .exec thread probe image => thread ∈ s.threads ∧ ∀ bytes ∈ image,
    ∃ r, (tryProcessExec s.maps thread probe).1 = some r ∧ IsImage r.members bytes
  | .exit thread probe image => thread ∈ s.threads ∧ ∀ bytes ∈ image,
    ∃ r, (tryProcessExit s.maps thread probe).1 = some r ∧ IsImage r.members bytes
  | .output image =>
    ∃ r : CaptureRecord, r.header.kind ≠ .processExec ∧ r.header.kind ≠ .processExit ∧
      IsImage r.members image
  | .send input => ∀ process, input = .processExit process → Ended s.threads process.pid
  | .poll .. | .handle _ => True

/-- The record names the process only when it has no thread left, and its id is not taken
again before what names it is handled. -/
def LastExit (tgid : UInt32) (s : Machine κ σ) (e : MachineEvent) : Prop :=
  match e with
  | .start thread => thread.tgid = tgid → (∀ image ∈ s.ring, ¬ reportsExit decode tgid image) ∧
    ∀ process, .processExit process ∈ s.channel → process.pid ≠ tgid.toNat
  | .exec _ _ image => ∀ bytes ∈ image, reportsExit decode tgid bytes → Ended s.threads tgid.toNat
  | .exit thread _ image => ∀ bytes ∈ image, reportsExit decode tgid bytes →
    Ended (s.threads.filter (· ≠ thread)) tgid.toNat
  | .output image => reportsExit decode tgid image → Ended s.threads tgid.toNat
  | .poll .. | .send _ | .handle _ => True

/-- The batch ends a task because a process exited. -/
def EndsTask (batch : CaptureBatch) : Prop :=
  ∃ transition, .taskTransition transition ∈ batch.records ∧ transition.cause = .processExited

/-- No record becomes an exit of the process while it has a thread, and no task is ended
by its exit then. -/
def Timely (tgid : UInt32) (s : Machine κ σ) : MachineEvent → Prop
  | .poll index now => ∀ image record process, s.ring.head? = some image →
    decode image = some record → mapLoaderRecord record index now = some (.processExit process) →
    process.pid = tgid.toNat → Ended s.threads tgid.toNat
  | .handle m => ∀ input batch, s.channel.head? = some input →
    (handleInput wire client codec toVec m s.lane input).1 = .batch batch → EndsTask batch →
    ∃ process, input = .processExit process ∧
      (process.pid = tgid.toNat → Ended s.threads tgid.toNat)
  | .start _ | .exec .. | .exit .. | .output _ | .send _ => True

end Machine

/-! ## What ends a task -/

section Lane
variable {κ σ : Type} [DecidableEq κ] {wire : Wire κ σ} {client : ClientInstance} {codec : Codec}
  {toVec : List Json → Bytes} {m : Moment} {lane : Lane κ σ} {batch : CaptureBatch}

theorem not_processExited_of_exchange {exchange : DecodedExchange} {index : ℕ}
    {cursor : Option TaskCursor} {transition : TaskTransition}
    (h : .taskTransition transition ∈
      exchangeRecords client m.title m.toTick index exchange codec cursor) :
    transition.cause ≠ .processExited := by
  have hcause : transition.cause = (mapAttemptProjection exchange.attempt).cause := by
    simp [exchangeRecords, taskTransitionOf] at h
    simp [h]
  rw [hcause]
  rcases transition_cases exchange with hopen | ⟨hend, -⟩
  · intro hexited
    rw [hexited] at hopen
    cases hopen
  · rw [hend]
    decide

theorem not_processExited_of_gap {index : ℕ} {flowId : Uuid} {task : Option TaskKey}
    {observedAt : OffsetDateTime} {reason : String} {lostBytes : Option ℕ}
    {transition : TaskTransition}
    (h : .taskTransition transition ∈ (projectGap client m.title m.toTick lane.store index flowId
      task observedAt reason lostBytes).records) : transition.cause ≠ .processExited := by
  cases task with
  | none => simp [projectGap] at h
  | some task =>
    cases hcursor : liveCursor lane.store task with
    | none => simp [projectGap, gapTaskRecords, hcursor] at h
    | some cursor =>
      simp [projectGap, gapTaskRecords, hcursor, carryOn] at h
      simp [h]

theorem not_processExited_of_item {flowId : Uuid} {item : FlowItem} {current : Option TaskKey}
    {index : ℕ} {transition : TaskTransition}
    (h : .taskTransition transition ∈
      (projectItem client codec toVec m lane.store flowId current index item).records) :
    transition.cause ≠ .processExited := by
  cases item with
  | exchange exchange =>
    rw [projectItem, projectExchange] at h
    split at h
    · exact not_processExited_of_exchange h
    · simp [CaptureBatch.empty] at h
  | gap reason lostBytes => exact not_processExited_of_gap h

theorem not_endsTask_handleSegment {segment : TcpSegment} {processInstanceId : Option Uuid}
    {direction : Option ProcessFlowDirection}
    (h : (handleSegment wire client codec toVec m lane segment processInstanceId direction).1 =
      .batch batch) : ¬ EndsTask batch := by
  rcases (handleSegment_cases rfl).2 batch h with ⟨flowId, hrecords⟩
  rintro ⟨transition, hmem, hexited⟩
  rw [hrecords, List.mem_flatMap] at hmem
  rcases hmem with ⟨item, -, hmem⟩
  exact not_processExited_of_item hmem hexited

/-- Only the exit of a process ends tasks because a process exited. -/
theorem exists_processExit_of_endsTask {input : CaptureInput}
    (h : (handleInput wire client codec toVec m lane input).1 = .batch batch)
    (hends : EndsTask batch) : ∃ process, input = .processExit process := by
  cases input with
  | tcpSegment segment => exact absurd hends (not_endsTask_handleSegment h)
  | attributedTcpSegment segment processInstanceId direction =>
    exact absurd hends (not_endsTask_handleSegment h)
  | captureGap flowId task observedAt reason lostBytes =>
    rcases hends with ⟨transition, hmem, hexited⟩
    have hbatch : Handled.ofBatch (projectGap client m.title m.toTick lane.store 0 flowId task
        observedAt reason lostBytes) = .batch batch := h
    rw [eq_of_ofBatch hbatch] at hmem
    exact absurd hexited (not_processExited_of_gap hmem)
  | processObserved process =>
    rcases hends with ⟨transition, hmem, -⟩
    cases h
    simp at hmem
  | processExit process => exact ⟨process, rfl⟩

end Lane

/-! ## Runs -/

section Runs
variable {κ σ : Type} [DecidableEq κ] {decode : List UInt8 → Option OwnedCaptureRecord}
  {wire : Wire κ σ} {client : ClientInstance} {codec : Codec} {toVec : List Json → Bytes}
  {tgid : UInt32} {s : Machine κ σ} {e : MachineEvent}

/-- Whatever names the exit of the process was put on its way after its end. -/
structure Waiting (decode : List UInt8 → Option OwnedCaptureRecord) (tgid : UInt32)
    (s : Machine κ σ) : Prop where
  ring : ∀ image ∈ s.ring, reportsExit decode tgid image → Ended s.threads tgid.toNat
  channel : ∀ process, .processExit process ∈ s.channel → process.pid = tgid.toNat →
    Ended s.threads tgid.toNat

theorem Ended.sublist {threads threads' : List Thread} {pid : ℕ} (h : Ended threads pid)
    (hsub : threads'.Sublist threads) : Ended threads' pid :=
  fun thread hthread => h thread (hsub.subset hthread)

theorem pid_of_mapLoaderRecord {record : OwnedCaptureRecord} {index : ProcessIndex}
    {now : OffsetDateTime} {process : ProcessSummary}
    (h : mapLoaderRecord record index now = some (.processExit process)) :
    record.header.kind = .processExit ∧ process.pid = record.header.connection.tgid.toNat := by
  rw [mapLoaderRecord, Option.bind_eq_some_iff] at h
  rcases h with ⟨tracked, -, h⟩
  split at h
  · cases h
  · cases h
    exact ⟨by assumption, rfl⟩
  · cases h

theorem reportsExit_of_mapLoaderRecord {image : List UInt8} {record : OwnedCaptureRecord}
    {index : ProcessIndex} {now : OffsetDateTime} {process : ProcessSummary}
    (hdecode : decode image = some record)
    (h : mapLoaderRecord record index now = some (.processExit process))
    (hpid : process.pid = tgid.toNat) : reportsExit decode tgid image := by
  rcases pid_of_mapLoaderRecord h with ⟨hkind, htgid⟩
  rw [reportsExit, hdecode]
  simp [hkind, UInt32.toNat_inj.mp (htgid.symm.trans hpid)]

theorem Waiting.timely (hs : Waiting decode tgid s) :
    Timely decode wire client codec toVec tgid s e := by
  cases e with
  | poll index now =>
    intro image record process hhead hdecode hmap hpid
    exact hs.ring image (List.mem_of_mem_head? hhead)
      (reportsExit_of_mapLoaderRecord hdecode hmap hpid)
  | handle m =>
    intro input batch hhead hbatch hends
    rcases exists_processExit_of_endsTask hbatch hends with ⟨process, rfl⟩
    exact ⟨process, rfl, hs.channel process (List.mem_of_mem_head? hhead)⟩
  | _ => trivial

/-- One event puts nothing on its way too early. -/
theorem Waiting.step (hs : Waiting decode tgid s) (hpossible : Possible s e)
    (hlast : LastExit decode tgid s e) :
    Waiting decode tgid (Machine.step decode wire client codec toVec s e) := by
  cases e with
  | start thread =>
    by_cases hthread : thread.tgid = tgid
    · rcases hlast hthread with ⟨hring, hchannel⟩
      exact ⟨fun image himage hexit => absurd hexit (hring image himage),
        fun process hprocess hpid => absurd hpid (hchannel process hprocess)⟩
    · have hended (h : Ended s.threads tgid.toNat) :
          Ended (s.threads ++ [thread]) tgid.toNat := by
        rintro other hother
        rcases List.mem_append.mp hother with hold | hnew
        · exact h other hold
        · obtain rfl := List.mem_singleton.mp hnew
          exact fun heq => hthread (UInt32.toNat_inj.mp heq)
      exact ⟨fun image himage hexit => hended (hs.ring image himage hexit),
        fun process hprocess hpid => hended (hs.channel process hprocess hpid)⟩
  | exec thread probe image =>
    refine ⟨fun bytes hbytes hexit => ?_, hs.channel⟩
    rcases List.mem_append.mp hbytes with hold | hnew
    · exact hs.ring bytes hold hexit
    · exact hlast bytes (by simpa using hnew) hexit
  | exit thread probe image =>
    have hsub : (s.threads.filter (· ≠ thread)).Sublist s.threads := List.filter_sublist
    refine ⟨fun bytes hbytes hexit => ?_, fun process hprocess hpid =>
      (hs.channel process hprocess hpid).sublist hsub⟩
    rcases List.mem_append.mp hbytes with hold | hnew
    · exact (hs.ring bytes hold hexit).sublist hsub
    · exact hlast bytes (by simpa using hnew) hexit
  | output image =>
    refine ⟨fun bytes hbytes hexit => ?_, hs.channel⟩
    rcases List.mem_append.mp hbytes with hold | hnew
    · exact hs.ring bytes hold hexit
    · obtain rfl := List.mem_singleton.mp hnew
      exact hlast hexit
  | poll index now =>
    rw [Machine.step]
    split
    · exact hs
    · rename_i image ring hring
      have hmem : ∀ bytes ∈ ring, bytes ∈ s.ring := fun bytes hbytes => by
        rw [hring]
        exact List.mem_cons_of_mem _ hbytes
      refine ⟨fun bytes hbytes => hs.ring bytes (hmem bytes hbytes), fun process hprocess hpid => ?_⟩
      rcases List.mem_append.mp hprocess with hold | hnew
      · exact hs.channel process hold hpid
      · rw [Option.mem_toList, Option.bind_eq_some_iff] at hnew
        rcases hnew with ⟨record, hdecode, hmap⟩
        refine hs.ring image ?_ (reportsExit_of_mapLoaderRecord hdecode hmap hpid)
        rw [hring]
        exact List.mem_cons_self
  | send input =>
    refine ⟨hs.ring, fun process hprocess hpid => ?_⟩
    rcases List.mem_append.mp hprocess with hold | hnew
    · exact hs.channel process hold hpid
    · rw [← hpid]
      exact hpossible process (List.mem_singleton.mp hnew).symm
  | handle m =>
    rw [Machine.step]
    split
    · exact hs
    · rename_i input channel hchannel
      refine ⟨hs.ring, fun process hprocess => hs.channel process ?_⟩
      rw [hchannel]
      exact List.mem_cons_of_mem _ hprocess

/-- While the condition is met, the exit of the process is reported after its end, and no
task is ended by it before. -/
theorem timely_of_lastExit {es : List MachineEvent} (hring : s.ring = []) (hchannel : s.channel = [])
    (hpossible : Run.Each (Machine.step decode wire client codec toVec) Possible s es)
    (hlast : Run.Each (Machine.step decode wire client codec toVec) (LastExit decode tgid) s es) :
    Run.Each (Machine.step decode wire client codec toVec)
      (Timely decode wire client codec toVec tgid) s es := by
  have hs : Waiting decode tgid s := ⟨by simp [hring], by simp [hchannel]⟩
  exact (hpossible.and hlast).mono_of_invariant (fun s e hs he => hs.step he.1 he.2)
    (fun s e hs _ => hs.timely) hs

end Runs

/-! ## A process with two threads -/

def mainThread : Thread := ⟨4242, 4242⟩

def workerThread : Thread := ⟨4242, 4243⟩

/-- A boot id that spells 4242. -/
def sampleBootId : Vector UInt8 16 := #v[1, 2, 3, 4, 5, 6, 7, 8, 9, 10, 146, 16, 0, 0, 15, 16]

def sampleProbe : Probe := ⟨0, some (Vector.replicate 16 0), Vector.replicate 256 0⟩

/-- The record of the worker's exit. -/
def workerExitImage : List UInt8 :=
  [1, 0, 104, 0, 1, 0, 0, 0, 0, 0, 0, 0, 0, 0, 0, 0] ++ sampleBootId.toList ++
    [146, 16, 0, 0, 147, 16, 0, 0] ++ List.replicate 48 0 ++ [16, 0, 0, 0] ++
    List.replicate 268 0

def sampleIndex : ProcessIndex := fun pid =>
  if pid = 4242 then some ⟨.v7 7, .v7 0, "sha", none, 0⟩ else none

def sampleMaps : KernelMaps := ⟨sampleBootId, .empty⟩

def sampleMachine (threads : List Thread) : Machine Unit Unit :=
  ⟨threads, sampleMaps, [], [], emptyLane⟩

/-- An attempt of a turn of the process, and then the worker exits. -/
def workerExits : List MachineEvent :=
  [.send (.attributedTcpSegment (serverSegment [2]) (.v7 7) .remoteToLocal), .handle (momentAt 0),
    .exit workerThread sampleProbe (some workerExitImage), .poll sampleIndex 101000000000,
    .handle (momentAt 1)]

theorem isImage_workerExit :
    ∃ r, (tryProcessExit sampleMaps workerThread sampleProbe).1 = some r ∧
      IsImage r.members workerExitImage := by
  refine ⟨_, rfl, ?_⟩
  rw [isImage_iff_imageAt]
  constructor <;> decide +kernel

abbrev sampleStep : Machine Unit Unit → MachineEvent → Machine Unit Unit :=
  Machine.step decodeCaptureRecord turnWire sampleClient (.numbered []) fun _ => []

theorem possible_workerExits {threads : List Thread} (h : workerThread ∈ threads) :
    Run.Each sampleStep Possible (sampleMachine threads) workerExits := by
  simp only [workerExits, Run.each_cons, Run.each_nil, and_true]
  refine ⟨fun process hprocess => (by cases hprocess), trivial, ⟨h, fun bytes hbytes => ?_⟩,
    trivial, trivial⟩
  obtain rfl := Option.mem_some.mp hbytes
  exact isImage_workerExit

/-- The worker is the last thread: its exit ends the task. -/
theorem timely_workerExits :
    Run.Each sampleStep (Timely decodeCaptureRecord turnWire sampleClient (.numbered [])
      (fun _ => []) 4242) (sampleMachine [workerThread]) workerExits := by
  have hpossible := possible_workerExits (List.mem_singleton_self workerThread)
  have hlast : Run.Each sampleStep (LastExit decodeCaptureRecord 4242)
      (sampleMachine [workerThread]) workerExits := by
    simp only [workerExits, Run.each_cons, Run.each_nil, and_true]
    refine ⟨trivial, trivial, fun bytes _ _ => ?_, trivial, trivial⟩
    decide
  exact timely_of_lastExit rfl rfl hpossible hlast

/-- The main thread is still there when the exit of the process is reported, and when the
task is lost by it. -/
theorem not_timely_workerExits :
    Run.Each sampleStep Possible (sampleMachine [mainThread, workerThread]) workerExits ∧
      ¬ Run.Each sampleStep (Timely decodeCaptureRecord turnWire sampleClient (.numbered [])
        (fun _ => []) 4242) (sampleMachine [mainThread, workerThread]) workerExits ∧
      mainThread ∈ (Run.run sampleStep (sampleMachine [mainThread, workerThread])
        workerExits).threads ∧
      (Run.run sampleStep (sampleMachine [mainThread, workerThread])
        workerExits).lane.store.activeTasks.rows.map (fun r => (r.2.phase, r.2.outcome)) =
        [(.terminal, some .lost)] := by
  refine ⟨possible_workerExits (by decide), fun h => ?_, by decide +kernel, by decide +kernel⟩
  simp only [workerExits, Run.each_cons] at h
  have hexit : reportsExit decodeCaptureRecord 4242 workerExitImage = true := by decide +kernel
  rw [reportsExit, Option.any_eq_true] at hexit
  rcases hexit with ⟨record, hdecode, hrecord⟩
  rcases of_decide_eq_true hrecord with ⟨hkind, htgid⟩
  have hmap : mapLoaderRecord record sampleIndex 101000000000 = some (.processExit
      ((⟨.v7 7, .v7 0, "sha", none, 0⟩ : TrackedProcess).summary 4242 (some 101000000000))) := by
    simp [mapLoaderRecord, hkind, htgid, sampleIndex]
  have hended := h.2.2.2.1 workerExitImage record _ rfl hdecode hmap rfl
  revert hended
  decide +kernel

end Codexwatch.System
