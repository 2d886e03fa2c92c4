import Codexwatch.CaptureEbpf.Attachment
import Codexwatch.System.ProcessEnd

/-!
# The eBPF lane and what it says of itself

`run_ebpf_loop` of `client/src/ebpf_lane.rs` for any factory, the health that it shares with the
heartbeats, and the factory of the daemon, which is `CaptureLoader::load`. Whatever the kernel
does, the uprobes are said to be active after an attempt that has attached those of a verified
profile, and after no other.

A heartbeat says `unsupported_build` of every other state, a kernel that refuses a program among
them, and `degraded` of none: nothing counts the records that the ring buffer drops. Of the
records that come, those of a process that starts or ends are sent on, and no plaintext is.

## Main definitions

* `EbpfLoop.step` — the loop.
* `After`, `Truthful` — the lane after its last attempt, and what it says.

## Main results

* `spaced_run` — the waits between the attempts of any factory.
* `truthful_run` — the health of the daemon's.
-/
namespace Codexwatch.System

open Protocol Client CaptureEbpf

/-! ## The health -/

structure RuntimeCaptureHealth where
  afPacketActive : Bool
  uprobeActive : Bool
  profileSupported : Bool
  ringBufferDrops : ℕ
  lastError : Option StructuredError

/-- `SharedCaptureHealth::default` -/
def RuntimeCaptureHealth.default : RuntimeCaptureHealth := ⟨false, false, true, 0, none⟩

namespace RuntimeCaptureHealth

variable (health : RuntimeCaptureHealth)

def setAfPacketActive (active : Bool) : RuntimeCaptureHealth :=
  { health with afPacketActive := active }

def setUnsupportedBuild (fingerprint : BuildFingerprint) : RuntimeCaptureHealth :=
  { health with
    uprobeActive := false
    profileSupported := false
    lastError := some (.unsupportedCodexBuild
      ⟨fingerprint.executableSha256, fingerprint.architecture, fingerprint.codexVersionHint⟩) }

def setEbpfRuntimeState (uprobeActive profileSupported : Bool)
    (lastError : Option StructuredError) : RuntimeCaptureHealth :=
  { health with uprobeActive, profileSupported, lastError }

def snapshot (activeFlows outboxBytes : ℕ) : CaptureHealth where
  afPacketActive := health.afPacketActive
  uprobeActive := health.uprobeActive
  profileSupported := health.profileSupported
  ringBufferDrops := health.ringBufferDrops
  activeFlows
  outboxBytes
  lastError := health.lastError

end RuntimeCaptureHealth

/-- The record of `emit_heartbeat_once`. -/
def heartbeatSummary (client : ClientInstance) (clientVersion : String)
    (health : RuntimeCaptureHealth) (activeFlows outboxBytes : ℕ) (now : OffsetDateTime) :
    HeartbeatSummary where
  clientInstanceId := client.instanceId
  observedAt := now
  clientVersion
  health := health.snapshot activeFlows outboxBytes

/-! ## The loop -/

/-- The trait; `ι` is what a call of `next_event` finds. -/
structure EbpfRuntime (ι ρ : Type) where
  nextEvent : ρ → ι → Except String (Option LoaderEvent) × ρ
  uprobeActive : ρ → Bool
  profileSupported : ρ → Bool

inductive Phase (ρ : Type)
  | starting
  | running (runtime : ρ)
  /-- The channel is closed and the loop has returned. -/
  | returned

/-- The loop, with what it has done: the attempts to start, the inputs that were sent and the
times in milliseconds that it waited after an error. -/
structure EbpfLoop (η ρ : Type) where
  phase : Phase ρ
  backoff : ℕ
  health : RuntimeCaptureHealth
  attempts : List η
  sent : List CaptureInput
  waits : List ℕ

inductive LoopEvent (η ι : Type)
  | start (host : η)
  /-- The channel may have been closed. -/
  | poll (item : ι) (index : ProcessIndex) (now : OffsetDateTime) (closed : Bool)

def nextBackoff (backoff : ℕ) : ℕ := min (backoff * 2) 30000

namespace EbpfLoop

variable {η ι ρ : Type}

def initial (η ρ : Type) (retryBackoff : ℕ) (health : RuntimeCaptureHealth) : EbpfLoop η ρ :=
  ⟨.starting, retryBackoff, health, [], [], []⟩

/-- After an error the loop sleeps, and then tries to start. -/
def fail (loop : EbpfLoop η ρ) (reason : String) : EbpfLoop η ρ :=
  { loop with
    phase := .starting
    health := loop.health.setEbpfRuntimeState false false (some (.captureLost ⟨reason, none⟩))
    waits := loop.waits ++ [loop.backoff]
    backoff := nextBackoff loop.backoff }

variable (factory : η → Except String ρ) (runtime : EbpfRuntime ι ρ) (retryBackoff : ℕ)

def start (loop : EbpfLoop η ρ) (host : η) : EbpfLoop η ρ :=
  let tried := { loop with attempts := loop.attempts ++ [host] }
  match factory host with
  | .error error => tried.fail ("ebpf_loader_error:" ++ error)
  | .ok running =>
      { tried with
        phase := .running running
        health := loop.health.setEbpfRuntimeState (runtime.uprobeActive running)
          (runtime.profileSupported running) none
        backoff := retryBackoff }

def poll (loop : EbpfLoop η ρ) (running : ρ) (item : ι) (index : ProcessIndex)
    (now : OffsetDateTime) (closed : Bool) : EbpfLoop η ρ :=
  let (event, running) := runtime.nextEvent running item
  let polled := { loop with phase := .running running }
  match event with
  | .ok (some (.unsupportedBuild fingerprint)) =>
      { polled with health := loop.health.setUnsupportedBuild fingerprint }
  | .ok (some (.capture record)) =>
      match mapLoaderRecord record index now with
      | none => polled
      | some input =>
          if closed then { polled with phase := .returned }
          else { polled with sent := loop.sent ++ [input] }
  | .ok none => polled
  | .error error => polled.fail ("ebpf_runtime_error:" ++ error)

def step (loop : EbpfLoop η ρ) : LoopEvent η ι → EbpfLoop η ρ
  | .start host =>
      match loop.phase with
      | .starting => loop.start factory runtime retryBackoff host
      | _ => loop
  | .poll item index now closed =>
      match loop.phase with
      | .running running => loop.poll runtime running item index now closed
      | _ => loop

end EbpfLoop

/-! ## The waits -/

section Waits
variable {η ι ρ : Type} {factory : η → Except String ρ} {runtime : EbpfRuntime ι ρ}
  {retryBackoff : ℕ}

/-- The loop waits after every attempt but the one that it is in, and never for less than the
configured time or half a minute, whichever is less. -/
structure Spaced (retryBackoff : ℕ) (loop : EbpfLoop η ρ) : Prop where
  backoff : min retryBackoff 30000 ≤ loop.backoff ∧ loop.backoff ≤ max retryBackoff 30000
  waits : ∀ wait ∈ loop.waits, min retryBackoff 30000 ≤ wait ∧ wait ≤ max retryBackoff 30000
  attempts : loop.attempts.length = loop.waits.length +
    match loop.phase with
    | .starting => 0
    | .running _ | .returned => 1

theorem Spaced.fail {loop : EbpfLoop η ρ} (reason : String)
    (hbackoff : min retryBackoff 30000 ≤ loop.backoff ∧ loop.backoff ≤ max retryBackoff 30000)
    (hwaits : ∀ wait ∈ loop.waits,
      min retryBackoff 30000 ≤ wait ∧ wait ≤ max retryBackoff 30000)
    (hattempts : loop.attempts.length = loop.waits.length + 1) :
    Spaced retryBackoff (loop.fail reason) := by
  refine ⟨?_, ?_, by simpa [EbpfLoop.fail] using hattempts⟩
  · simp only [EbpfLoop.fail, nextBackoff]
    omega
  · intro wait hwait
    rcases List.mem_append.mp hwait with hold | hnew
    · exact hwaits wait hold
    · rw [List.mem_singleton.mp hnew]
      exact hbackoff

theorem Spaced.step {loop : EbpfLoop η ρ} (h : Spaced retryBackoff loop) (e : LoopEvent η ι) :
    Spaced retryBackoff (loop.step factory runtime retryBackoff e) := by
  cases e with
  | start host =>
      cases hphase : loop.phase with
      | starting =>
          have hattempts := h.attempts
          simp only [hphase] at hattempts
          simp only [EbpfLoop.step, hphase, EbpfLoop.start]
          split
          · exact .fail _ h.backoff h.waits (by simp [hattempts])
          · exact ⟨by simp, h.waits, by simp [hattempts]⟩
      | running r => simpa only [EbpfLoop.step, hphase] using h
      | returned => simpa only [EbpfLoop.step, hphase] using h
  | poll item index now closed =>
      cases hphase : loop.phase with
      | starting => simpa only [EbpfLoop.step, hphase] using h
      | returned => simpa only [EbpfLoop.step, hphase] using h
      | running r =>
          have hattempts := h.attempts
          simp only [hphase] at hattempts
          simp only [EbpfLoop.step, hphase, EbpfLoop.poll]
          split
          · exact ⟨h.backoff, h.waits, hattempts⟩
          · split
            · exact ⟨h.backoff, h.waits, hattempts⟩
            · split <;> exact ⟨h.backoff, h.waits, hattempts⟩
          · exact ⟨h.backoff, h.waits, hattempts⟩
          · exact .fail _ h.backoff h.waits hattempts

theorem spaced_run (health : RuntimeCaptureHealth) (events : List (LoopEvent η ι)) :
    Spaced retryBackoff (Run.run (EbpfLoop.step factory runtime retryBackoff)
      (.initial η ρ retryBackoff health) events) :=
  Run.invariant (fun _ e h => h.step e) ⟨by simp [EbpfLoop.initial], by simp [EbpfLoop.initial],
    rfl⟩ events

end Waits

/-! ## The capture of the daemon -/

/-- The ring buffer gives an event or none, and no error. -/
def realEbpfRuntime : EbpfRuntime (Option (List UInt8)) RunningCapture where
  nextEvent running item := ((.ok (running.nextEvent item).1), (running.nextEvent item).2)
  uprobeActive := RunningCapture.isVerified
  profileSupported := RunningCapture.isVerified

section Real
variable {registry : ProfileRegistry} {arch : String} {sha256 : Bytes → Bytes}
  {retryBackoff : ℕ}

/-- `RealEbpfFactory::start` -/
abbrev realEbpfFactory (registry : ProfileRegistry) (arch : String) (sha256 : Bytes → Bytes) :
    Host → Except String RunningCapture :=
  CaptureLoader.load registry arch sha256

def unsupportedError (fingerprint : BuildFingerprint) : StructuredError :=
  .unsupportedCodexBuild
    ⟨fingerprint.executableSha256, fingerprint.architecture, fingerprint.codexVersionHint⟩

/-- The capture that was loaded runs, or did until the loop returned, and what it had to announce
it has announced or has not yet. -/
def Announcing (loaded : RunningCapture) (loop : EbpfLoop Host RunningCapture) : Prop :=
  (loop.health.lastError = none ∧ (loop.phase = .running loaded ∨ loop.phase = .returned)) ∨
  ∃ fingerprint, loaded.pendingEvent = some (.unsupportedBuild fingerprint) ∧
    loop.health.lastError = some (unsupportedError fingerprint) ∧
    (loop.phase = .running { loaded with pendingEvent := none } ∨ loop.phase = .returned)

/-- What the lane is and says after an attempt, or before the first. -/
def After (loop : EbpfLoop Host RunningCapture) : Option (Except String RunningCapture) → Prop
  | none => loop.phase = .starting ∧ loop.health.uprobeActive = false ∧
      loop.health.profileSupported = true ∧ loop.health.lastError = none
  | some (.error error) => loop.phase = .starting ∧ loop.health.uprobeActive = false ∧
      loop.health.profileSupported = false ∧
      loop.health.lastError = some (.captureLost ⟨"ebpf_loader_error:" ++ error, none⟩)
  | some (.ok loaded) => loop.health.uprobeActive = loaded.isVerified ∧
      loop.health.profileSupported = loaded.isVerified ∧ Announcing loaded loop

/-- What the lane says is so. -/
structure Truthful (registry : ProfileRegistry) (arch : String) (sha256 : Bytes → Bytes)
    (captureInterface : Bool) (loop : EbpfLoop Host RunningCapture) : Prop where
  afPacket : loop.health.afPacketActive = captureInterface
  drops : loop.health.ringBufferDrops = 0
  sent : ∀ input ∈ loop.sent, ∃ process, input = .processObserved process ∨
    input = .processExit process
  attempted : After loop (loop.attempts.getLast?.map (CaptureLoader.load registry arch sha256))

theorem isVerified_of_verified {host : Host} {registered : RegisteredProfile}
    {running : RunningCapture} (h : Verified registry arch sha256 host registered running) :
    running.isVerified = true := by simp [RunningCapture.isVerified, h.profile]

theorem mapLoaderRecord_cases {record : OwnedCaptureRecord} {index : ProcessIndex}
    {now : OffsetDateTime} {input : CaptureInput}
    (h : mapLoaderRecord record index now = some input) :
    ∃ process, input = .processObserved process ∨ input = .processExit process := by
  rw [mapLoaderRecord, Option.bind_eq_some_iff] at h
  rcases h with ⟨tracked, -, h⟩
  split at h
  · exact ⟨_, .inl (Option.some.inj h).symm⟩
  · exact ⟨_, .inr (Option.some.inj h).symm⟩
  · cases h

theorem After.start (loop : EbpfLoop Host RunningCapture) (host : Host) :
    After (loop.start (realEbpfFactory registry arch sha256) realEbpfRuntime retryBackoff host)
      (some (CaptureLoader.load registry arch sha256 host)) := by
  cases hload : CaptureLoader.load registry arch sha256 host with
  | error error =>
      simp [After, EbpfLoop.start, hload, EbpfLoop.fail,
        RuntimeCaptureHealth.setEbpfRuntimeState]
  | ok loaded =>
      simp only [After, EbpfLoop.start, hload]
      exact ⟨rfl, rfl, .inl ⟨rfl, .inl rfl⟩⟩

@[simp] theorem attempts_start (loop : EbpfLoop Host RunningCapture) (host : Host) :
    (loop.start (realEbpfFactory registry arch sha256) realEbpfRuntime retryBackoff host).attempts =
      loop.attempts ++ [host] := by
  rw [EbpfLoop.start]
  split <;> rfl

theorem Truthful.start {captureInterface : Bool} {loop : EbpfLoop Host RunningCapture}
    (h : Truthful registry arch sha256 captureInterface loop) (host : Host) :
    Truthful registry arch sha256 captureInterface
      (loop.start (realEbpfFactory registry arch sha256) realEbpfRuntime retryBackoff host) := by
  refine ⟨?_, ?_, ?_, ?_⟩
  · rw [← h.afPacket, EbpfLoop.start]
    split <;> rfl
  · rw [← h.drops, EbpfLoop.start]
    split <;> rfl
  · rw [EbpfLoop.start]
    split <;> exact h.sent
  · rw [attempts_start, List.getLast?_concat, Option.map_some]
    exact .start loop host

theorem After.congr {loop loop' : EbpfLoop Host RunningCapture}
    {attempt : Option (Except String RunningCapture)} (h : After loop attempt)
    (hphase : loop'.phase = loop.phase) (hhealth : loop'.health = loop.health) :
    After loop' attempt := by
  rcases attempt with _ | _ | loaded
  · simpa only [After, hphase, hhealth] using h
  · simpa only [After, hphase, hhealth] using h
  · simpa only [After, Announcing, hphase, hhealth] using h

/-- A loop that polls has loaded a capture. -/
theorem After.exists_loaded {loop : EbpfLoop Host RunningCapture} {running : RunningCapture}
    {attempt : Option (Except String RunningCapture)} (h : After loop attempt)
    (hphase : loop.phase = .running running) :
    ∃ loaded, attempt = some (.ok loaded) ∧ loop.health.uprobeActive = loaded.isVerified ∧
      loop.health.profileSupported = loaded.isVerified ∧ Announcing loaded loop := by
  rcases attempt with _ | _ | loaded
  · have hstarting := h.1
    rw [hphase] at hstarting
    cases hstarting
  · have hstarting := h.1
    rw [hphase] at hstarting
    cases hstarting
  · exact ⟨loaded, rfl, h⟩

/-- A poll of a capture that has nothing to announce. -/
theorem Truthful.poll_quiet {captureInterface : Bool} {loop : EbpfLoop Host RunningCapture}
    {running : RunningCapture} (h : Truthful registry arch sha256 captureInterface loop)
    (hphase : loop.phase = .running running) (hquiet : running.pendingEvent = none)
    (item : Option (List UInt8)) (index : ProcessIndex) (now : OffsetDateTime) (closed : Bool) :
    Truthful registry arch sha256 captureInterface
      (loop.poll realEbpfRuntime running item index now closed) := by
  have hsame : ({ loop with phase := .running running } : EbpfLoop Host RunningCapture) = loop := by
    rw [← hphase]
  simp only [EbpfLoop.poll, realEbpfRuntime, RunningCapture.nextEvent, hquiet]
  cases hrecord : item.bind decodeCaptureRecord with
  | none => simpa only [Option.map_none, hsame] using h
  | some record =>
      simp only [Option.map_some]
      cases hinput : mapLoaderRecord record index now with
      | none => simpa only [hsame] using h
      | some input =>
          cases closed with
          | false =>
              refine ⟨h.afPacket, h.drops, ?_, h.attempted.congr hphase.symm rfl⟩
              intro other hother
              rcases List.mem_append.mp hother with hold | hnew
              · exact h.sent other hold
              · rw [List.mem_singleton.mp hnew]
                exact mapLoaderRecord_cases hinput
          | true =>
              refine ⟨h.afPacket, h.drops, h.sent, ?_⟩
              rcases h.attempted.exists_loaded hphase with
                ⟨_, hloaded, huprobe, hsupported, hannouncing⟩
              simp only [if_true, hloaded]
              refine ⟨huprobe, hsupported, ?_⟩
              rcases hannouncing with ⟨herror, -⟩ | ⟨fingerprint, hpending, herror, -⟩
              · exact .inl ⟨herror, .inr rfl⟩
              · exact .inr ⟨fingerprint, hpending, herror, .inr rfl⟩

/-- The first poll of a capture that is not supported. -/
theorem Truthful.poll_announce {captureInterface : Bool} {loop : EbpfLoop Host RunningCapture}
    {loaded : RunningCapture} {fingerprint : BuildFingerprint}
    (h : Truthful registry arch sha256 captureInterface loop)
    (hloaded : loop.attempts.getLast?.map (CaptureLoader.load registry arch sha256) =
      some (.ok loaded))
    (hunverified : loaded.isVerified = false)
    (hpending : loaded.pendingEvent = some (.unsupportedBuild fingerprint))
    (item : Option (List UInt8)) (index : ProcessIndex) (now : OffsetDateTime) (closed : Bool) :
    Truthful registry arch sha256 captureInterface
      (loop.poll realEbpfRuntime loaded item index now closed) := by
  simp only [EbpfLoop.poll, realEbpfRuntime, RunningCapture.nextEvent, hpending]
  refine ⟨h.afPacket, h.drops, h.sent, ?_⟩
  simp only [hloaded]
  exact ⟨hunverified.symm, hunverified.symm, .inr ⟨fingerprint, hpending, rfl, .inl rfl⟩⟩

theorem Truthful.step {captureInterface : Bool} {loop : EbpfLoop Host RunningCapture}
    (h : Truthful registry arch sha256 captureInterface loop)
    (e : LoopEvent Host (Option (List UInt8))) :
    Truthful registry arch sha256 captureInterface
      (loop.step (realEbpfFactory registry arch sha256) realEbpfRuntime retryBackoff e) := by
  cases e with
  | start host =>
      cases hphase : loop.phase with
      | starting => simpa only [EbpfLoop.step, hphase] using h.start host
      | running _ => simpa only [EbpfLoop.step, hphase] using h
      | returned => simpa only [EbpfLoop.step, hphase] using h
  | poll item index now closed =>
      cases hphase : loop.phase with
      | starting => simpa only [EbpfLoop.step, hphase] using h
      | returned => simpa only [EbpfLoop.step, hphase] using h
      | running running =>
          simp only [EbpfLoop.step, hphase]
          rcases h.attempted.exists_loaded hphase with ⟨loaded, hloaded, -, -, hannouncing⟩
          simp only [Announcing, hphase, Phase.running.injEq, reduceCtorEq, or_false]
            at hannouncing
          rcases hannouncing with ⟨-, rfl⟩ | ⟨fingerprint, -, -, rfl⟩
          · rcases Option.map_eq_some_iff.mp hloaded with ⟨host, -, hload⟩
            -- what is loaded is silent or says first that it is not supported
            rcases load_ways hload with ⟨_, hverified⟩ | hunsupported
            · exact h.poll_quiet hphase hverified.quiet item index now closed
            · rcases hunsupported.announced with ⟨_, -, hpending, -⟩
              exact h.poll_announce hloaded hunsupported.unverified hpending item index now closed
          · exact h.poll_quiet hphase rfl item index now closed

/-- The uprobes of a verified profile are attached, or it was so when the loop returned. -/
def Probing (registry : ProfileRegistry) (arch : String) (sha256 : Bytes → Bytes)
    (loop : EbpfLoop Host RunningCapture) : Prop :=
  ∃ host registered running, loop.attempts.getLast? = some host ∧
    CaptureLoader.load registry arch sha256 host = .ok running ∧
    Verified registry arch sha256 host registered running ∧
    (loop.phase = .running running ∨ loop.phase = .returned)

theorem Truthful.uprobeActive_iff {captureInterface : Bool}
    {loop : EbpfLoop Host RunningCapture}
    (h : Truthful registry arch sha256 captureInterface loop) :
    loop.health.uprobeActive = true ↔ Probing registry arch sha256 loop := by
  have hattempted := h.attempted
  constructor
  · intro hactive
    cases hlast : loop.attempts.getLast? with
    | none => simp [hlast, After, hactive] at hattempted
    | some host =>
        cases hload : CaptureLoader.load registry arch sha256 host with
        | error _ => simp [hlast, hload, After, hactive] at hattempted
        | ok loaded =>
            simp only [hlast, Option.map_some, hload, After] at hattempted
            rcases hattempted with ⟨huprobe, -, hannouncing⟩
            rcases load_ways hload with ⟨registered, hverified⟩ | hunsupported
            · refine ⟨host, registered, loaded, hlast, hload, hverified, ?_⟩
              rcases hannouncing with ⟨-, hphase⟩ | ⟨_, hpending, -⟩
              · exact hphase
              · rw [hverified.quiet] at hpending
                cases hpending
            · rw [hactive, hunsupported.unverified] at huprobe
              cases huprobe
  · rintro ⟨host, registered, running, hlast, hload, hverified, -⟩
    simp only [hlast, Option.map_some, hload, After] at hattempted
    rw [hattempted.1, isVerified_of_verified hverified]

theorem Truthful.profileSupported_iff {captureInterface : Bool}
    {loop : EbpfLoop Host RunningCapture}
    (h : Truthful registry arch sha256 captureInterface loop) :
    loop.health.profileSupported = true ↔
      loop.attempts = [] ∨ loop.health.uprobeActive = true := by
  have hattempted := h.attempted
  cases hlast : loop.attempts.getLast? with
  | none =>
      simp only [hlast, Option.map_none, After] at hattempted
      simp [hattempted.2.2.1, List.getLast?_eq_none_iff.mp hlast]
  | some host =>
      have hsome : loop.attempts ≠ [] := by
        rintro hnone
        simp [hnone] at hlast
      cases hload : CaptureLoader.load registry arch sha256 host with
      | error _ =>
          simp only [hlast, Option.map_some, hload, After] at hattempted
          simp [hattempted.2.1, hattempted.2.2.1, hsome]
      | ok _ =>
          simp only [hlast, Option.map_some, hload, After] at hattempted
          rw [hattempted.1, hattempted.2.1]
          simp [hsome]

/-- What a heartbeat says of the capture. -/
theorem Truthful.captureHealth {captureInterface : Bool}
    {loop : EbpfLoop Host RunningCapture}
    (h : Truthful registry arch sha256 captureInterface loop) (activeFlows outboxBytes : ℕ) :
    captureHealth (loop.health.snapshot activeFlows outboxBytes) =
      if loop.health.profileSupported then .complete else .unsupportedBuild := by
  have hattempted := h.attempted
  cases hsupported : loop.health.profileSupported with
  | false => simp [Client.captureHealth, RuntimeCaptureHealth.snapshot, hsupported]
  | true =>
      have hlost : isCaptureLost loop.health.lastError = false := by
        rcases hlast : loop.attempts.getLast?.map (CaptureLoader.load registry arch sha256) with
          _ | _ | loaded
        · simp only [hlast, After] at hattempted
          rw [hattempted.2.2.2]
          rfl
        · simp [hlast, After, hsupported] at hattempted
        · simp only [hlast, After] at hattempted
          rcases hattempted.2.2 with ⟨herror, -⟩ | ⟨_, -, herror, -⟩
          · rw [herror]
            rfl
          · rw [herror]
            rfl
      simp [Client.captureHealth, RuntimeCaptureHealth.snapshot, hsupported, h.drops, hlost]

theorem truthful_initial (captureInterface : Bool) :
    Truthful registry arch sha256 captureInterface
      (.initial Host RunningCapture retryBackoff
        (RuntimeCaptureHealth.default.setAfPacketActive captureInterface)) :=
  ⟨rfl, rfl, by simp [EbpfLoop.initial], rfl, rfl, rfl, rfl⟩

/-- In every run the health says what the last attempt came to. The heartbeats say `complete`
before the first attempt and while the uprobes of a verified profile are attached, else that the
build is not supported. -/
theorem truthful_run (captureInterface : Bool)
    (events : List (LoopEvent Host (Option (List UInt8)))) :
    let loop := Run.run (EbpfLoop.step (realEbpfFactory registry arch sha256) realEbpfRuntime
      retryBackoff) (.initial Host RunningCapture retryBackoff
        (RuntimeCaptureHealth.default.setAfPacketActive captureInterface)) events
    Spaced retryBackoff loop ∧ Truthful registry arch sha256 captureInterface loop ∧
      (loop.health.uprobeActive = true ↔ Probing registry arch sha256 loop) ∧
      ∀ heartbeatId client clientVersion activeFlows outboxBytes now,
        (buildHeartbeat heartbeatId client (heartbeatSummary client clientVersion loop.health
          activeFlows outboxBytes now)).captureHealth =
            if loop.attempts = [] ∨ loop.health.uprobeActive then .complete
            else .unsupportedBuild := by
  intro loop
  have htruthful : Truthful registry arch sha256 captureInterface loop :=
    Run.invariant (fun _ e h => h.step e) (truthful_initial captureInterface) events
  refine ⟨spaced_run _ events, htruthful, htruthful.uprobeActive_iff, ?_⟩
  intro heartbeatId client clientVersion activeFlows outboxBytes now
  simp only [buildHeartbeat, heartbeatSummary, htruthful.captureHealth,
    htruthful.profileSupported_iff]

/-- A registry without a validated profile, as the built-in one is, has no probes attached. -/
theorem not_probing_of_unvalidated
    (hregistry : ∀ registered ∈ registry.profiles, registered.profile.validated = false)
    (loop : EbpfLoop Host RunningCapture) : ¬ Probing registry arch sha256 loop := by
  rintro ⟨_, registered, _, -, -, hverified, -⟩
  have hvalidated := hverified.validated
  rw [hregistry registered hverified.known] at hvalidated
  cases hvalidated

end Real

end Codexwatch.System
