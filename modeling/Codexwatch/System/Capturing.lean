import Codexwatch.Client.Attribution
import Codexwatch.Client.Discovery
import Codexwatch.Client.FlowTable
import Codexwatch.Lib.Channel
import Codexwatch.System.EbpfLane

/-!
# The capture of the daemon

`run_daemon_with_components` of `client/src/service.rs`. The tap, the process discovery and the
eBPF lane have a loop each that sends what it captures into one channel, and a fourth loop takes
the inputs out and gives them to the lane. What the other tasks do to the store comes in between.
The channel is any implementation; the order of the inputs, and no other result, rests on what is
documented of it.

A loop that finds the channel full waits. An error of the lane ends its loop and closes the
channel, and an error of the tap ends the loop of the tap; the daemon comes down with the first
of them, and a run of the model may stop anywhere.

## Main definitions

* `Daemon.step` — one step of one of the loops.
* `offered`, `taken` — what it brings, and what it gives to the lane.

## Main results

* `components_run` — the components of a daemon make runs of their own.
* `failStop_run` — the lane stops with the first error.
* `inOrder_run` — what is captured gets to the lane, in order and once at most.
* `openFlows_run` — the flows that are open; `activeFlows_run` counts them.
-/
namespace Codexwatch.System.Capturing

open Protocol Client Relational

inductive Origin
  | capture | discovery | ebpf
  deriving DecidableEq

inductive LoopState
  | running | returned | failed
  deriving DecidableEq

/-- The capacity with which the channel is made. -/
def CHANNEL_CAPACITY : ℕ := 512

/-- What the loops are made of. -/
structure Components (κ σ η ι ρ χ : Type) where
  wire : Wire κ σ
  /-- The texts of the client and the server of a flow. -/
  ends : σ → String × String
  client : ClientInstance
  codec : Codec
  toVec : List Json → Bytes
  discovery : DiscoveryConfig
  factory : η → Except String ρ
  runtime : EbpfRuntime ι ρ
  retryBackoff : ℕ
  /-- The channel; an input in it is with the loop that has sent it. -/
  channel : Channel χ (Origin × CaptureInput)

structure Daemon (κ σ η ρ χ : Type) [DecidableEq κ] where
  recorder : Recorder κ σ
  channel : χ
  /-- What a loop has still to send. -/
  held : Origin → List CaptureInput
  source : PassiveTapSource
  discovery : ProcfsProcessDiscovery
  ebpf : EbpfLoop η ρ
  /-- The loops that send. -/
  loops : Origin → LoopState
  /-- `run_capture_ingest_loop`; the channel is open while it runs. -/
  ingesting : LoopState

inductive DaemonEvent (η ι : Type)
  | capture (call : Recv)
  | discover (procfs : Procfs)
  | start (host : η)
  | poll (item : ι) (index : ProcessIndex) (now : OffsetDateTime)
  /-- The loop that waits in `send` goes on, if it can. -/
  | send (origin : Origin)
  | ingest (m : Moment)
  /-- A transaction of another task. -/
  | other (transaction : Store → Store)

/-- What the loop of the tap sends. -/
def inputsOf : Received → List CaptureInput
  | .attributed captured processInstanceId direction =>
      [.attributedTcpSegment captured.segment processInstanceId direction]
  | .nothing | .error => []

def tapFailed : Received → Bool
  | .error => true
  | .attributed .. | .nothing => false

section Daemon
variable {κ σ η ι ρ χ : Type} [DecidableEq κ] (c : Components κ σ η ι ρ χ)

namespace Daemon

/-- All loops start, with a new lane and what earlier runs have left in the database. -/
def started (store : Store) (flows : FlowTable) (source : PassiveTapSource)
    (discovery : ProcfsProcessDiscovery) (ebpf : EbpfLoop η ρ) : Daemon κ σ η ρ χ where
  recorder := ⟨⟨store, .empty, .empty⟩, flows⟩
  channel := c.channel.new
  held _ := []
  source
  discovery
  ebpf
  loops _ := .running
  ingesting := .running

variable (d : Daemon κ σ η ρ χ)

/-- The loop has sent all that it had. -/
def Ready (origin : Origin) : Prop := d.loops origin = .running ∧ d.held origin = []

instance (origin : Origin) : Decidable (d.Ready origin) := inferInstanceAs (Decidable (_ ∧ _))

/-- The loop has more to send. -/
def offer (origin : Origin) (inputs : List CaptureInput) : Origin → List CaptureInput :=
  Function.update d.held origin (d.held origin ++ inputs)

/-- A round of `run_capture_source_loop`. -/
def capture (call : Recv) : Daemon κ σ η ρ χ :=
  let (received, source, _) := d.source.recv call
  { d with
    source
    held := d.offer .capture (inputsOf received)
    loops := if tapFailed received then Function.update d.loops .capture .failed else d.loops }

/-- A round of `run_process_source_loop`. -/
def discover (procfs : Procfs) : Daemon κ σ η ρ χ :=
  let (events, discovery) := ProcfsProcessDiscovery.poll c.discovery procfs d.discovery
  { d with discovery, held := d.offer .discovery events }

def ebpfStep (e : LoopEvent η ι) : EbpfLoop η ρ :=
  d.ebpf.step c.factory c.runtime c.retryBackoff e

/-- A round of `run_ebpf_loop`, with what it sends. -/
def runEbpf (e : LoopEvent η ι) : Daemon κ σ η ρ χ :=
  let ebpf := d.ebpfStep c e
  { d with ebpf, held := d.offer .ebpf (ebpf.sent.drop d.ebpf.sent.length) }

/-- The loop goes on with its `send`, which fails when the channel is closed. -/
def send (origin : Origin) : Daemon κ σ η ρ χ :=
  match d.held origin with
  | [] => d
  | input :: rest =>
      if d.loops origin ≠ .running then d
      else if d.ingesting ≠ .running then
        { d with loops := Function.update d.loops origin .returned }
      else
        match c.channel.send d.channel (origin, input) with
        | none => d
        | some channel => { d with channel, held := Function.update d.held origin rest }

/-- A round of `run_capture_ingest_loop`. -/
def ingest (m : Moment) : Daemon κ σ η ρ χ :=
  match c.channel.recv d.channel with
  | none => d
  | some ((_, input), channel) =>
      { d with
        recorder := d.recorder.step c.wire c.ends c.client c.codec c.toVec (.ingest m input)
        channel
        ingesting :=
          if (ingestInput c.wire c.client c.codec c.toVec m d.recorder.lane input).1 = .error
          then .failed else .running }

def step (e : DaemonEvent η ι) : Daemon κ σ η ρ χ :=
  match e with
  | .capture call => if d.Ready .capture then d.capture call else d
  | .discover procfs => if d.Ready .discovery then d.discover c procfs else d
  | .start host => if d.Ready .ebpf then d.runEbpf c (.start host) else d
  | .poll item index now =>
      if d.Ready .ebpf then d.runEbpf c (.poll item index now (d.ingesting ≠ .running)) else d
  | .send origin => d.send c origin
  | .ingest m => if d.ingesting = .running then d.ingest c m else d
  | .other transaction =>
      { d with
        recorder := d.recorder.step c.wire c.ends c.client c.codec c.toVec (.other transaction) }

end Daemon

/-! ## What the components do -/

variable (d : Daemon κ σ η ρ χ)

/-- The inputs that a step brings. -/
def offered : DaemonEvent η ι → List (Origin × CaptureInput)
  | .capture call =>
      if d.Ready .capture then (inputsOf (d.source.recv call).1).map (.mk .capture) else []
  | .discover procfs =>
      if d.Ready .discovery then
        (ProcfsProcessDiscovery.poll c.discovery procfs d.discovery).1.map (.mk .discovery)
      else []
  | .start host =>
      if d.Ready .ebpf then
        ((d.ebpfStep c (.start host)).sent.drop d.ebpf.sent.length).map (.mk .ebpf)
      else []
  | .poll item index now =>
      if d.Ready .ebpf then
        ((d.ebpfStep c (.poll item index now (d.ingesting ≠ .running))).sent.drop
          d.ebpf.sent.length).map (.mk .ebpf)
      else []
  | .send _ | .ingest _ | .other _ => []

/-- The input that comes out of the channel next. -/
def received : List (Origin × CaptureInput) := ((c.channel.recv d.channel).map Prod.fst).toList

/-- The input that a step gives to the lane. -/
def taken : DaemonEvent η ι → List (Origin × CaptureInput)
  | .ingest _ => if d.ingesting = .running then received c d else []
  | .capture _ | .discover _ | .start _ | .poll .. | .send _ | .other _ => []

def recorderEvents : DaemonEvent η ι → List RecorderEvent
  | .ingest m =>
      if d.ingesting = .running then (received c d).map fun input => .ingest m input.2 else []
  | .other transaction => [.other transaction]
  | .capture _ | .discover _ | .start _ | .poll .. | .send _ => []

def ebpfEvents : DaemonEvent η ι → List (LoopEvent η ι)
  | .start host => if d.Ready .ebpf then [.start host] else []
  | .poll item index now =>
      if d.Ready .ebpf then [.poll item index now (d.ingesting ≠ .running)] else []
  | .capture _ | .discover _ | .send _ | .ingest _ | .other _ => []

def sourceEvents : DaemonEvent η ι → List Recv
  | .capture call => if d.Ready .capture then [call] else []
  | .discover _ | .start _ | .poll .. | .send _ | .ingest _ | .other _ => []

def discoveryEvents : DaemonEvent η ι → List Procfs
  | .discover procfs => if d.Ready .discovery then [procfs] else []
  | .capture _ | .start _ | .poll .. | .send _ | .ingest _ | .other _ => []

/-! ## Runs of the components -/

/-- The step of the lane and its table. -/
abbrev recorderStep : Recorder κ σ → RecorderEvent → Recorder κ σ :=
  Recorder.step c.wire c.ends c.client c.codec c.toVec

/-- What a `send` does: nothing, or it finds the channel closed, or an input gets into it. -/
theorem send_cases (origin : Origin) :
    d.send c origin = d ∨
      d.send c origin = { d with loops := Function.update d.loops origin .returned } ∨
      ∃ input rest channel, d.held origin = input :: rest ∧
        c.channel.send d.channel (origin, input) = some channel ∧
        d.send c origin = { d with channel, held := Function.update d.held origin rest } := by
  rw [Daemon.send]
  split
  · exact .inl rfl
  · rename_i input rest hheld
    split
    · exact .inl rfl
    · split
      · exact .inr (.inl rfl)
      · cases hsend : c.channel.send d.channel (origin, input) with
        | none => exact .inl rfl
        | some channel => exact .inr (.inr ⟨input, rest, channel, hheld, hsend, rfl⟩)

/-- A step of the daemon is for each of its components a run of that component. -/
theorem components_step (e : DaemonEvent η ι) :
    (d.step c e).recorder = Run.run (recorderStep c) d.recorder (recorderEvents c d e) ∧
      (d.step c e).ebpf =
        Run.run (EbpfLoop.step c.factory c.runtime c.retryBackoff) d.ebpf (ebpfEvents d e) ∧
      (d.step c e).source =
        Run.run (fun source call => (PassiveTapSource.recv source call).2.1) d.source
          (sourceEvents d e) ∧
      (d.step c e).discovery =
        Run.run (fun discovery procfs =>
          (ProcfsProcessDiscovery.poll c.discovery procfs discovery).2) d.discovery
          (discoveryEvents d e) := by
  cases e with
  | capture | discover | start | poll =>
      simp only [Daemon.step, recorderEvents, ebpfEvents, sourceEvents, discoveryEvents]
      split <;> exact ⟨rfl, rfl, rfl, rfl⟩
  | send origin =>
      rw [Daemon.step]
      rcases send_cases c d origin with h | h | ⟨input, rest, channel, -, -, h⟩ <;> rw [h] <;>
        exact ⟨rfl, rfl, rfl, rfl⟩
  | other => exact ⟨rfl, rfl, rfl, rfl⟩
  | ingest m =>
      simp only [Daemon.step, recorderEvents, ebpfEvents, sourceEvents, discoveryEvents]
      split
      · rw [Daemon.ingest, received]
        cases c.channel.recv d.channel <;> exact ⟨rfl, rfl, rfl, rfl⟩
      · exact ⟨rfl, rfl, rfl, rfl⟩

/-- A run of the daemon is for each of its components a run of that component. -/
theorem components_run (es : List (DaemonEvent η ι)) :
    (Run.run (Daemon.step c) d es).recorder =
        Run.run (recorderStep c) d.recorder (Run.trace (Daemon.step c) (recorderEvents c) d es) ∧
      (Run.run (Daemon.step c) d es).ebpf =
        Run.run (EbpfLoop.step c.factory c.runtime c.retryBackoff) d.ebpf
          (Run.trace (Daemon.step c) ebpfEvents d es) ∧
      (Run.run (Daemon.step c) d es).source =
        Run.run (fun source call => (PassiveTapSource.recv source call).2.1) d.source
          (Run.trace (Daemon.step c) sourceEvents d es) ∧
      (Run.run (Daemon.step c) d es).discovery =
        Run.run (fun discovery procfs =>
          (ProcfsProcessDiscovery.poll c.discovery procfs discovery).2) d.discovery
          (Run.trace (Daemon.step c) discoveryEvents d es) := by
  have heach : Run.Each (Daemon.step c) (fun _ _ => True) d es :=
    Run.each_iff_forall_prefix.mpr fun _ _ _ => trivial
  exact ⟨Run.view_run (fun d e _ => (components_step c d e).1) heach,
    Run.view_run (fun d e _ => (components_step c d e).2.1) heach,
    Run.view_run (fun d e _ => (components_step c d e).2.2.1) heach,
    Run.view_run (fun d e _ => (components_step c d e).2.2.2) heach⟩

/-! ## The first error -/

/-- The lane answers, and not with an error. -/
def Succeeds (r : Recorder κ σ) : RecorderEvent → Prop
  | .ingest m input => (ingestInput c.wire c.client c.codec c.toVec m r.lane input).1 ≠ .error
  | .other _ => True

/-- What happened to the lane, when its loop is in that state: after an input that it answered
with an error it was given no more. -/
def FailStop (r : Recorder κ σ) (events : List RecorderEvent) : LoopState → Prop
  | .running => Run.Each (recorderStep c) (Succeeds c) r events
  | .returned => False
  | .failed => ∃ done m input rest, events = done ++ .ingest m input :: rest ∧
      Run.Each (recorderStep c) (Succeeds c) r done ∧
      ¬ Succeeds c (Run.run (recorderStep c) r done) (.ingest m input) ∧
      ∀ e ∈ rest, ∃ transaction, e = .other transaction

variable {c} in
theorem FailStop.other {r : Recorder κ σ} {events : List RecorderEvent} {state : LoopState}
    (h : FailStop c r events state) (transaction : Store → Store) :
    FailStop c r (events ++ [.other transaction]) state := by
  cases state with
  | running => exact Run.each_snoc.mpr ⟨h, trivial⟩
  | returned => exact h
  | failed =>
      rcases h with ⟨done, m, input, rest, rfl, hdone, hlast, hrest⟩
      refine ⟨done, m, input, rest ++ [.other transaction], by simp, hdone, hlast, ?_⟩
      intro e he
      rcases List.mem_append.mp he with he | he
      · exact hrest e he
      · exact ⟨transaction, List.mem_singleton.mp he⟩

variable {d} in
theorem failStop_step {r : Recorder κ σ} {events : List RecorderEvent}
    (h : FailStop c r events d.ingesting)
    (hrun : d.recorder = Run.run (recorderStep c) r events) (e : DaemonEvent η ι) :
    FailStop c r (events ++ recorderEvents c d e) (d.step c e).ingesting := by
  cases e with
  | capture | discover | start | poll =>
      simp only [Daemon.step, recorderEvents, List.append_nil]
      split <;> exact h
  | send origin =>
      rw [Daemon.step, recorderEvents, List.append_nil]
      rcases send_cases c d origin with hsend | hsend | ⟨input, rest, channel, -, -, hsend⟩ <;>
        rw [hsend] <;> exact h
  | other transaction => exact h.other transaction
  | ingest m =>
      simp only [Daemon.step, recorderEvents]
      split
      · rename_i hrunning
        rw [hrunning] at h
        rw [Daemon.ingest, received]
        cases c.channel.recv d.channel with
        | none => simpa [hrunning] using h
        | some next =>
            rcases next with ⟨input, channel⟩
            simp only [Option.map_some, Option.toList_some, List.map_cons, List.map_nil, hrun]
            split
            · rename_i herror
              exact ⟨events, m, input.2, [], rfl, h, fun hsucceeds => hsucceeds herror, by simp⟩
            · rename_i hanswer
              exact Run.each_snoc.mpr ⟨h, hanswer⟩
      · simpa using h

/-- In every run of the daemon the lane answers without an error, or with one error that is the
last answer it gives. -/
theorem failStop_run (hstart : d.ingesting = .running) (es : List (DaemonEvent η ι)) :
    FailStop c d.recorder (Run.trace (Daemon.step c) (recorderEvents c) d es)
      (Run.run (Daemon.step c) d es).ingesting := by
  induction es using List.reverseRecOn with
  | nil =>
      rw [Run.run_nil, hstart]
      trivial
  | append_singleton es e ih =>
      rw [Run.trace_append, Run.run_snoc]
      simp only [Run.trace, List.append_nil]
      exact failStop_step c ih (components_run c d es).1 e

/-! ## On the way to the lane -/

section Fifo
variable {c} {contents : χ → List (Origin × CaptureInput)}
  (hchannel : c.channel.Fifo CHANNEL_CAPACITY contents)

/-- The inputs of a loop that have not come to the lane. -/
def onTheWay (contents : χ → List (Origin × CaptureInput)) (origin : Origin) :
    List CaptureInput :=
  Channel.onTheWay (contents d.channel) d.held origin

include hchannel

theorem conserved_step (e : DaemonEvent η ι) (origin : Origin) :
    onTheWay d contents origin ++ Channel.sentBy origin (offered c d e) =
      Channel.sentBy origin (taken c d e) ++ onTheWay (d.step c e) contents origin := by
  cases e with
  | capture | discover | start | poll =>
      simp only [Daemon.step, offered, taken, Channel.sentBy_nil, List.nil_append]
      split
      · exact (Channel.onTheWay_offer _ _ _ _ _).symm
      · simp
  | send sender =>
      rw [Daemon.step, offered, taken, Channel.sentBy_nil, List.nil_append, List.append_nil]
      rcases send_cases c d sender with h | h | ⟨input, rest, channel, hheld, hsend, h⟩ <;> rw [h]
      · rfl
      · rw [onTheWay, onTheWay, hchannel.contents_send _ _ _ hsend,
          Channel.onTheWay_send hheld]
  | other transaction => simp [Daemon.step, offered, taken, onTheWay]
  | ingest m =>
      rw [Daemon.step, offered, taken, Channel.sentBy_nil, List.append_nil]
      split
      · rw [Daemon.ingest, received]
        cases hrecv : c.channel.recv d.channel with
        | none => simp
        | some next =>
            rw [onTheWay, hchannel.contents_eq_cons hrecv, Channel.onTheWay_cons]
            rfl
      · simp

theorem bounded_step {d : Daemon κ σ η ρ χ} (h : (contents d.channel).length ≤ CHANNEL_CAPACITY)
    (e : DaemonEvent η ι) : (contents (d.step c e).channel).length ≤ CHANNEL_CAPACITY := by
  cases e with
  | capture | discover | start | poll =>
      simp only [Daemon.step]
      split <;> exact h
  | send sender =>
      rw [Daemon.step]
      rcases send_cases c d sender with hs | hs | ⟨input, rest, channel, -, hsend, hs⟩ <;> rw [hs]
      · exact h
      · exact h
      · exact hchannel.length_send hsend
  | other transaction => exact h
  | ingest m =>
      simp only [Daemon.step]
      split
      · rw [Daemon.ingest]
        split
        · exact h
        · rename_i hrecv
          rw [hchannel.contents_eq_cons hrecv, List.length_cons] at h
          exact Nat.le_of_succ_le h
      · exact h

theorem bounded_run {d : Daemon κ σ η ρ χ} (h : (contents d.channel).length ≤ CHANNEL_CAPACITY)
    (es : List (DaemonEvent η ι)) :
    (contents (Run.run (Daemon.step c) d es).channel).length ≤ CHANNEL_CAPACITY :=
  Run.invariant
    (I := fun d : Daemon κ σ η ρ χ => (contents d.channel).length ≤ CHANNEL_CAPACITY)
    (fun _ e hd => bounded_step hchannel hd e) h es

end Fifo

/-- The inputs among the events of the lane. -/
def ingested (events : List RecorderEvent) : List CaptureInput :=
  events.filterMap fun
    | .ingest _ input => some input
    | .other _ => none

theorem ingested_recorderEvents (e : DaemonEvent η ι) :
    ingested (recorderEvents c d e) = (taken c d e).map Prod.snd := by
  cases e with
  | capture | discover | start | poll | send | other => rfl
  | ingest m =>
      simp only [recorderEvents, taken]
      split
      · rw [received]
        cases c.channel.recv d.channel <;> rfl
      · rfl

theorem ingested_trace (es : List (DaemonEvent η ι)) :
    ingested (Run.trace (Daemon.step c) (recorderEvents c) d es) =
      (Run.trace (Daemon.step c) (taken c) d es).map Prod.snd := by
  induction es generalizing d with
  | nil => rfl
  | cons e es ih =>
      rw [Run.trace, Run.trace, List.map_append, ← ih, ← ingested_recorderEvents]
      exact List.filterMap_append

/-- What is taken is what the lane ingests. What a loop brings is taken in this order and once, or
has not come to the lane. -/
theorem inOrder_run {contents : χ → List (Origin × CaptureInput)}
    (hchannel : c.channel.Fifo CHANNEL_CAPACITY contents) (es : List (DaemonEvent η ι)) :
    ingested (Run.trace (Daemon.step c) (recorderEvents c) d es) =
        (Run.trace (Daemon.step c) (taken c) d es).map Prod.snd ∧
      ∀ origin, onTheWay d contents origin ++
          Channel.sentBy origin (Run.trace (Daemon.step c) (offered c) d es) =
        Channel.sentBy origin (Run.trace (Daemon.step c) (taken c) d es) ++
          onTheWay (Run.run (Daemon.step c) d es) contents origin :=
  ⟨ingested_trace c d es, Channel.conserved_run (conserved_step · hchannel) d es⟩

/-! ## The flows that are open -/

/-- The identifier drawn for a flow is not in the table. -/
def DrawsFresh : DaemonEvent η ι → Prop
  | .ingest m => d.recorder.flows.get? (m.ids .flow) = none
  | .capture _ | .discover _ | .start _ | .poll .. | .send _ | .other _ => True

instance : ∀ e : DaemonEvent η ι, Decidable (DrawsFresh d e)
  | .ingest m => inferInstanceAs (Decidable (d.recorder.flows.get? (m.ids .flow) = none))
  | .capture _ | .discover _ | .start _ | .poll .. | .send _ | .other _ => .isTrue trivial

variable {d} in
theorem fresh_recorderEvents {e : DaemonEvent η ι} (h : DrawsFresh d e) :
    Run.Each (recorderStep c) (fun r e => RecorderEvent.Fresh r e) d.recorder
      (recorderEvents c d e) := by
  cases e with
  | capture | discover | start | poll | send => trivial
  | other transaction => exact ⟨trivial, trivial⟩
  | ingest m =>
      simp only [recorderEvents]
      split
      · rw [received]
        cases c.channel.recv d.channel with
        | none => trivial
        | some next => exact ⟨h, trivial⟩
      · trivial

section Lost
variable {c} {r : Recorder κ σ} {events : List RecorderEvent}

theorem loss_of_succeeds {e : RecorderEvent} (h : Succeeds c r e) : e.loss c.wire r = none := by
  cases e with
  | other transaction => rfl
  | ingest m input =>
      exact Option.eq_none_iff_forall_ne_some.mpr fun _ hloss => h (ingestInput_of_loss hloss)

theorem lostFlows_of_succeeds (h : Run.Each (recorderStep c) (Succeeds c) r events) :
    lostFlows c.wire c.ends c.client c.codec c.toVec r events = [] := by
  induction events generalizing r with
  | nil => rfl
  | cons e events ih =>
      rw [lostFlows, Run.trace, loss_of_succeeds h.1]
      exact ih h.2

/-- A lane that stops with its first error loses one flow at most. -/
theorem FailStop.length_lostFlows_le {state : LoopState} (h : FailStop c r events state) :
    (lostFlows c.wire c.ends c.client c.codec c.toVec r events).length ≤
      if state = .running then 0 else 1 := by
  cases state with
  | running =>
      rw [lostFlows_of_succeeds h]
      exact Nat.zero_le _
  | returned => exact h.elim
  | failed =>
      rcases h with ⟨done, m, input, rest, rfl, hdone, -, hrest⟩
      have hothers (r' : Recorder κ σ) : Run.Each (recorderStep c) (Succeeds c) r' rest := by
        refine Run.each_iff_forall_prefix.mpr fun before e hbefore => ?_
        rcases hrest e (hbefore.subset (by simp)) with ⟨transaction, rfl⟩
        trivial
      have hbefore := lostFlows_of_succeeds hdone
      have hafter := lostFlows_of_succeeds
        (hothers (recorderStep c (Run.run (recorderStep c) r done) (.ingest m input)))
      rw [lostFlows] at hbefore hafter ⊢
      rw [Run.trace_append, hbefore, Run.trace, hafter, List.nil_append, List.append_nil]
      exact Option.length_toList_le

end Lost

/-- The open rows, with those that the errors of the lane have left. -/
theorem accounts_lostFlows {d : Daemon κ σ η ρ χ} (hnew : tracked d.recorder.lane = [])
    {es : List (DaemonEvent η ι)}
    (hfresh : Run.Each (Daemon.step c) (fun d e => DrawsFresh d e) d es) :
    Accounts d.recorder.flows (Run.run (Daemon.step c) d es).recorder.flows
      (tracked (Run.run (Daemon.step c) d es).recorder.lane ++
        lostFlows c.wire c.ends c.client c.codec c.toVec d.recorder
          (Run.trace (Daemon.step c) (recorderEvents c) d es)) := by
  have hevents := Run.each_trace (fun d e => (components_step c d e).1)
    (fun _ _ he => fresh_recorderEvents c he) hfresh
  have hself : Accounts d.recorder.flows d.recorder.flows (tracked d.recorder.lane ++ []) := by
    rw [hnew]
    exact accounts_self _
  rw [(components_run c d es).1]
  exact Client.accounts_run hself hevents

/-- After any run the rows that are open are those from before, those of the flows that the lane
holds, and, once the lane has stopped, the row of one flow more at most. -/
theorem openFlows_run {d : Daemon κ σ η ρ χ} (hstart : d.ingesting = .running)
    (hnew : tracked d.recorder.lane = []) {es : List (DaemonEvent η ι)}
    (hfresh : Run.Each (Daemon.step c) (fun d e => DrawsFresh d e) d es) :
    ∃ lost : List Uuid,
      lost.length ≤ (if (Run.run (Daemon.step c) d es).ingesting = .running then 0 else 1) ∧
        Accounts d.recorder.flows (Run.run (Daemon.step c) d es).recorder.flows
          (tracked (Run.run (Daemon.step c) d es).recorder.lane ++ lost) :=
  ⟨_, (failStop_run c d hstart es).length_lostFlows_le, accounts_lostFlows c hnew hfresh⟩

/-- What `health_snapshot` counts while the lane runs. -/
theorem activeFlows_run {d : Daemon κ σ η ρ χ} (hstart : d.ingesting = .running)
    (hnew : tracked d.recorder.lane = []) {es : List (DaemonEvent η ι)}
    (hfresh : Run.Each (Daemon.step c) (fun d e => DrawsFresh d e) d es)
    (hrunning : (Run.run (Daemon.step c) d es).ingesting = .running) :
    (Run.run (Daemon.step c) d es).recorder.flows.activeFlows =
      d.recorder.flows.activeFlows +
        (tracked (Run.run (Daemon.step c) d es).recorder.lane).length := by
  have hlost := (failStop_run c d hstart es).length_lostFlows_le
  rw [if_pos hrunning, Nat.le_zero, List.length_eq_zero_iff] at hlost
  rw [(accounts_lostFlows c hnew hfresh).activeFlows_eq, hlost, List.append_nil]

end Daemon

/-! ## A flow of one segment -/

/-- Every byte of a payload is an exchange, and there is no eBPF. -/
def sampleComponents :
    Components Unit Unit Unit Unit Unit (List (Origin × CaptureInput)) where
  wire := turnWire
  ends _ := ("10.0.0.2:40000", "10.0.0.9:443")
  client := sampleClient
  codec := .numbered []
  toVec _ := []
  discovery := ⟨.v7 0, none, "codex"⟩
  factory _ := .error "unavailable"
  runtime := ⟨fun _ _ => (.ok none, ()), fun _ => false, fun _ => false⟩
  retryBackoff := 1000
  channel := .queue _ CHANNEL_CAPACITY

/-- The tap has a segment of each direction to read. -/
def sampleDaemon : Daemon Unit Unit Unit Unit (List (Origin × CaptureInput)) :=
  .started sampleComponents .empty .empty (Attribution.World.new Attribution.exchange [443]).source
    ⟨.empty, .empty, .empty⟩ (.initial Unit Unit 1000 .default)

/-- The first of them gets to the lane. -/
def sampleEvents : List (DaemonEvent Unit Unit) :=
  [.capture (Attribution.callAt 10 Attribution.attributing fun _ => Attribution.attributing),
    .send .capture, .ingest (momentAt 0)]

theorem openFlows_run_sample :
    tracked (Run.run (Daemon.step sampleComponents) sampleDaemon sampleEvents).recorder.lane =
        [(momentAt 0).ids .flow] ∧
      ∃ lost : List Uuid,
        lost.length ≤ (if (Run.run (Daemon.step sampleComponents) sampleDaemon
          sampleEvents).ingesting = .running then 0 else 1) ∧
        Accounts .empty (Run.run (Daemon.step sampleComponents) sampleDaemon
            sampleEvents).recorder.flows
          (tracked (Run.run (Daemon.step sampleComponents) sampleDaemon
            sampleEvents).recorder.lane ++ lost) :=
  ⟨by decide +kernel, openFlows_run sampleComponents rfl rfl (by decide +kernel)⟩

/-- The tap reads both segments, and the lane is given one. -/
def twoCaptures : List (DaemonEvent Unit Unit) :=
  sampleEvents ++
    [.capture (Attribution.callAt 10 Attribution.attributing fun _ => Attribution.attributing),
      .send .capture]

theorem inOrder_run_twoCaptures :
    ((ingested (Run.trace (Daemon.step sampleComponents) (recorderEvents sampleComponents)
          sampleDaemon twoCaptures)).length = 1 ∧
        (onTheWay (Run.run (Daemon.step sampleComponents) sampleDaemon twoCaptures) id
          .capture).length = 1) ∧
      ingested (Run.trace (Daemon.step sampleComponents) (recorderEvents sampleComponents)
          sampleDaemon twoCaptures) =
        (Run.trace (Daemon.step sampleComponents) (taken sampleComponents) sampleDaemon
          twoCaptures).map Prod.snd ∧
      ∀ origin, onTheWay sampleDaemon id origin ++ Channel.sentBy origin
          (Run.trace (Daemon.step sampleComponents) (offered sampleComponents) sampleDaemon
            twoCaptures) =
        Channel.sentBy origin (Run.trace (Daemon.step sampleComponents) (taken sampleComponents)
          sampleDaemon twoCaptures) ++
          onTheWay (Run.run (Daemon.step sampleComponents) sampleDaemon twoCaptures) id origin :=
  ⟨by decide +kernel, inOrder_run sampleComponents sampleDaemon (Channel.queue_fifo _) twoCaptures⟩

end Codexwatch.System.Capturing
