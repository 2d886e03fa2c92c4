import Codexwatch.Lib.Run
import Codexwatch.CaptureEbpf.Plaintext

/-!
# Connection identity of the records

Probes fire in any order and in any threads. A connection is told from others by its process,
its pointer and a serial number that the code does not see: of the processes that have had
one number, and of the connections that have been at one address.

## Main definitions

* `World`, `step` — the maps, and which record belongs to which call.
* `Identifies` — the records tell the connections and their calls apart.
* `Traced` — a firing that finds the maps as the identity needs them.
* `identifies_run` — in runs of such firings.
-/
namespace Codexwatch.CaptureEbpf.Connections

open Relational CaptureMaps

structure ProcessInstance where
  tgid : UInt32
  serial : ℕ
  deriving DecidableEq

structure Connection where
  process : ProcessInstance
  ptr : UInt64
  serial : ℕ
  deriving DecidableEq

inductive Event
  /-- A new process gets the number. -/
  | start (tgid : UInt32)
  /-- A new connection of the process gets the address. -/
  | allocate (tgid : UInt32) (ptr : UInt64)
  | exec (thread : Thread) (firing : Firing)
  | exit (thread : Thread) (firing : Firing)
  | tcpState (thread : Thread) (sock : UInt64) (state : UInt32) (firing : Firing)
  | enter (io : Io) (thread : Thread) (args : CallArgs) (fileOffset : UInt64) (firing : Firing)
  | ret (io : Io) (thread : Thread) (result : CallResult) (firing : Firing)

/-- The `number`-th call on a connection, counted from zero, and how the code identifies it. -/
structure Call where
  connection : Connection
  number : ℕ
  identity : ConnectionIdentity
  deriving DecidableEq

/-- A record about a call. -/
structure Report where
  connection : Connection
  number : ℕ
  record : CaptureRecord

def Report.identity (r : Report) : ConnectionIdentity := r.record.header.connection

structure World where
  maps : CaptureMaps
  processes : UInt32 → ℕ
  connections : ProcessInstance → UInt64 → ℕ
  calls : List Call
  /-- The calls that a thread is in, the innermost first. -/
  opened : Io → Thread → List Call
  /-- The connections that were called before a thread of their process exited. -/
  outlived : List Connection
  reports : List Report

namespace World
variable (w : World)

/-- The processes that run when the probes are attached have the serial number zero. -/
def new (bootId : Vector UInt8 16) : World where
  maps := ⟨⟨bootId, .empty⟩, .empty, .empty, .empty, .empty⟩
  processes _ := 0
  connections _ _ := 0
  calls := []
  opened _ _ := []
  outlived := []
  reports := []

def process (tgid : UInt32) : ProcessInstance := ⟨tgid, w.processes tgid⟩

def connection (thread : Thread) (ptr : UInt64) : Connection :=
  ⟨w.process thread.tgid, ptr, w.connections (w.process thread.tgid) ptr⟩

def callsOf (c : Connection) : List Call := w.calls.filter (·.connection = c)

def reportsOf (c : Connection) : List Report := w.reports.filter (·.connection = c)

end World

/-- The programs at the entry of the traced functions. -/
def tryPlaintextEnter : Io → CaptureMaps → Thread → CallArgs → UInt64 → Firing →
    Option CaptureRecord × CaptureMaps
  | .write => tryPlaintextWriteEnter
  | .read => tryPlaintextReadEnter

/-- The programs at their return. -/
def tryPlaintextReturn : Io → CaptureMaps → Thread → CallResult → Firing →
    Option CaptureRecord × CaptureMaps
  | .write => tryPlaintextWriteReturn
  | .read => tryPlaintextReadReturn

def step (w : World) : Event → World
  | .start tgid =>
      { w with
        processes := Function.update w.processes tgid (w.processes tgid + 1)
        opened := fun io thread => if thread.tgid = tgid then [] else w.opened io thread }
  | .allocate tgid ptr =>
      let process := w.process tgid
      { w with
        connections := Function.update w.connections process
          (Function.update (w.connections process) ptr (w.connections process ptr + 1)) }
  | .exec thread firing =>
      { w with maps.toKernelMaps := (tryProcessExec w.maps.toKernelMaps thread firing.toProbe).2 }
  | .exit thread firing =>
      { w with
        maps.toKernelMaps := (tryProcessExit w.maps.toKernelMaps thread firing.toProbe).2
        outlived := w.outlived ++
          (w.calls.map Call.connection).filter (·.process = w.process thread.tgid) }
  | .tcpState _ _ _ _ => w
  | .enter io thread args fileOffset firing =>
      let (record, maps) := tryPlaintextEnter io w.maps thread args fileOffset firing
      let connection := w.connection thread args.connection
      let number := (w.callsOf connection).length
      let call := ⟨connection, number,
        (w.maps.enteredIdentity thread args.connection firing).1.1⟩
      { w with
        maps
        calls := w.calls ++ [call]
        opened := fun io' thread' =>
          if io' = io ∧ thread' = thread then call :: w.opened io thread else w.opened io' thread'
        reports := w.reports ++ record.toList.map (⟨connection, number, ·⟩) }
  | .ret io thread result firing =>
      let (record, maps) := tryPlaintextReturn io w.maps thread result firing
      { w with
        maps
        opened := fun io' thread' =>
          if io' = io ∧ thread' = thread then (w.opened io thread).tail else w.opened io' thread'
        reports := w.reports ++ (w.opened io thread).head?.toList.flatMap fun call =>
          record.toList.map (⟨call.connection, call.number, ·⟩) }

/-! ## What the records say -/

/-- What a record says of its connection. -/
def Report.key (r : Report) : Vector UInt8 16 × UInt32 × UInt64 × UInt64 × UInt64 :=
  (r.identity.bootId, r.identity.tgid, r.identity.startTicks, r.identity.connectionPtr,
    r.identity.epoch)

structure Identifies (w : World) : Prop where
  same : ∀ r ∈ w.reports, ∀ r' ∈ w.reports, r.connection = r'.connection →
    r.identity.startTicks = r'.identity.startTicks ∧ r.identity.epoch = r'.identity.epoch
  first : ∀ r ∈ w.reports, (w.reportsOf r.connection).head?.map (·.record.header.kind) =
    some .connectionCreate
  sequence : ∀ r ∈ w.reports, r.identity.callSequence.toNat = r.number + 1
  distinct : ∀ r ∈ w.reports, ∀ r' ∈ w.reports, r.key = r'.key → r.connection = r'.connection

/-- No other call was made under the pointer. -/
def Untouched (w : World) (ptr : UInt64) : Prop := ∀ call ∈ w.calls, call.connection.ptr ≠ ptr

instance (w : World) (ptr : UInt64) : Decidable (Untouched w ptr) :=
  inferInstanceAs (Decidable (∀ call ∈ w.calls, _))

/-- The maps are as the identity of a call needs them. -/
structure TracedEnter (w : World) (thread : Thread) (ptr : UInt64) (firing : Firing) : Prop where
  started : (w.maps.processStart.get? thread.tgid).isSome
  alive : w.connection thread ptr ∉ w.outlived
  unshared : ∀ call ∈ w.calls, call.connection.ptr = ptr → call.connection = w.connection thread ptr
  room : Untouched w ptr → w.maps.connectionEpochs.rows.length < MAX_CONNECTIONS ∧
    w.maps.connectionSequences.rows.length < MAX_CONNECTIONS
  output : Untouched w ptr → firing.output = true
  few : (w.callsOf (w.connection thread ptr)).length + 1 < 2 ^ 64

instance (w : World) (thread : Thread) (ptr : UInt64) (firing : Firing) :
    Decidable (TracedEnter w thread ptr firing) :=
  decidable_of_iff (_ ∧ _ ∧ _ ∧ _ ∧ _ ∧ _)
    ⟨fun h => ⟨h.1, h.2.1, h.2.2.1, h.2.2.2.1, h.2.2.2.2.1, h.2.2.2.2.2⟩,
      fun h => ⟨h.1, h.2, h.3, h.4, h.5, h.6⟩⟩

def Traced (w : World) : Event → Prop
  | .enter _ thread args _ firing => TracedEnter w thread args.connection firing
  | .ret io thread _ firing => firing.output = true ∨ (w.opened io thread).length ≤ 1
  | _ => True

instance (w : World) : (event : Event) → Decidable (Traced w event)
  | .enter _ thread args _ firing =>
      inferInstanceAs (Decidable (TracedEnter w thread args.connection firing))
  | .ret io thread _ firing =>
      inferInstanceAs (Decidable (firing.output = true ∨ (w.opened io thread).length ≤ 1))
  | .start _ | .allocate _ _ | .exec _ _ | .exit _ _ | .tcpState _ _ _ _ => isTrue trivial

/-! ## What traced firings keep -/

/-- What the maps hold of the calls, and the records of them. -/
structure Kept (w : World) : Prop where
  known : ∀ call ∈ w.calls, call.connection.process.serial ≤
    w.processes call.connection.process.tgid
  started : ∀ call ∈ w.calls, call.connection.process = w.process call.connection.process.tgid →
    call.connection ∉ w.outlived →
    w.maps.processStart.get? call.connection.process.tgid = some call.identity.startTicks
  same : ∀ call ∈ w.calls, ∀ call' ∈ w.calls, call.connection = call'.connection →
    call.identity.startTicks = call'.identity.startTicks
  identity : ∀ call ∈ w.calls, call.identity.connectionPtr = call.connection.ptr ∧
    call.identity.epoch = 1 ∧ call.identity.callSequence.toNat = call.number + 1
  unshared : ∀ call ∈ w.calls, ∀ call' ∈ w.calls, call.connection.ptr = call'.connection.ptr →
    call.connection = call'.connection
  epochs : ∀ call ∈ w.calls, w.maps.connectionEpochs.get? call.connection.ptr = some 1
  sequences : ∀ call ∈ w.calls, ∃ sequence,
    w.maps.connectionSequences.get? call.connection.ptr = some sequence ∧
      sequence.toNat = (w.callsOf call.connection).length
  untouched : ∀ ptr, Untouched w ptr → w.maps.connectionEpochs.get? ptr = none ∧
    w.maps.connectionSequences.get? ptr = none
  opened : ∀ io thread, ∀ call ∈ w.opened io thread, call ∈ w.calls
  inflight : ∀ io thread, ∀ call ∈ (w.opened io thread).head?,
    ∀ inflight ∈ (w.maps.inflight io).get? thread,
    connectionIdentityFromInflight w.maps inflight = call.identity
  reports : ∀ r ∈ w.reports, ∃ call ∈ w.calls, call.connection = r.connection ∧
    call.number = r.number ∧ call.identity = r.identity
  first : ∀ call ∈ w.calls, (w.reportsOf call.connection).head?.map (·.record.header.kind) =
    some .connectionCreate

theorem Kept.identifies {w : World} (h : Kept w) : Identifies w where
  same r hr r' hr' heq := by
    obtain ⟨call, hcall, hconnection, -, hidentity⟩ := h.reports r hr
    obtain ⟨call', hcall', hconnection', -, hidentity'⟩ := h.reports r' hr'
    rw [← hidentity, ← hidentity', (h.identity call hcall).2.1, (h.identity call' hcall').2.1]
    exact ⟨h.same call hcall call' hcall' (by rw [hconnection, hconnection', heq]), rfl⟩
  first r hr := by
    obtain ⟨call, hcall, hconnection, -⟩ := h.reports r hr
    rw [← hconnection]
    exact h.first call hcall
  sequence r hr := by
    obtain ⟨call, hcall, -, hnumber, hidentity⟩ := h.reports r hr
    rw [← hidentity, ← hnumber]
    exact (h.identity call hcall).2.2
  distinct r hr r' hr' hkey := by
    obtain ⟨call, hcall, hconnection, -, hidentity⟩ := h.reports r hr
    obtain ⟨call', hcall', hconnection', -, hidentity'⟩ := h.reports r' hr'
    simp only [Report.key, Prod.mk.injEq] at hkey
    have hptr := hkey.2.2.2.1
    rw [← hidentity, ← hidentity', (h.identity call hcall).1, (h.identity call' hcall').1] at hptr
    rw [← hconnection, ← hconnection']
    exact h.unshared call hcall call' hcall' hptr

theorem kept_new (bootId : Vector UInt8 16) : Kept (.new bootId) := by
  constructor <;> simp [World.new, CaptureMaps.inflight]

section Steps
variable {w : World} {thread : Thread} {firing : Firing}

theorem kept_start (h : Kept w) (tgid : UInt32) : Kept (step w (.start tgid)) :=
  { h with
    known := fun call hcall => by
      refine (h.known call hcall).trans ?_
      change _ ≤ Function.update w.processes tgid _ call.connection.process.tgid
      rw [Function.update_apply]
      split
      · rename_i heq
        rw [heq]
        exact Nat.le_succ _
      · exact le_rfl
    started := fun call hcall hprocess houtlived => by
      have hknown := h.known call hcall
      have hprocesses : call.connection.process.serial =
          Function.update w.processes tgid (w.processes tgid + 1) call.connection.process.tgid :=
        congrArg ProcessInstance.serial hprocess
      rw [Function.update_apply] at hprocesses
      split at hprocesses
      · rename_i heq
        rw [hprocesses, heq] at hknown
        omega
      · refine h.started call hcall ?_ houtlived
        rw [World.process, ← hprocesses]
    opened := fun io thread call hcall => by
      simp only [step] at hcall
      split at hcall
      · cases hcall
      · exact h.opened io thread call hcall
    inflight := fun io thread call hcall => by
      simp only [step] at hcall
      split at hcall
      · cases hcall
      · exact h.inflight io thread call hcall }

theorem kept_allocate (h : Kept w) (tgid : UInt32) (ptr : UInt64) :
    Kept (step w (.allocate tgid ptr)) := { h with }

/-- The start of a process that was called stays. -/
theorem kept_exec (h : Kept w) (thread : Thread) (firing : Firing) :
    Kept (step w (.exec thread firing)) :=
  { h with
    started := fun call hcall hprocess houtlived =>
      get?_insertStart (h.started call hcall hprocess houtlived) }

/-- The start of the process is gone, and its connections are outlived. -/
theorem kept_exit (h : Kept w) (thread : Thread) (firing : Firing) :
    Kept (step w (.exit thread firing)) :=
  { h with
    started := fun call hcall hprocess houtlived => by
      simp only [step, List.mem_append, not_or, List.mem_filter, List.mem_map, not_and,
        decide_eq_true_eq] at houtlived
      have hne : call.connection.process.tgid ≠ thread.tgid := by
        intro heq
        refine houtlived.2 ⟨call, hcall, rfl⟩ ?_
        rw [← heq]
        exact hprocess
      have hstart := h.started call hcall hprocess houtlived.1
      change Table.get? (w.maps.processStart.deleteWhere _) _ = _
      rw [Table.get?_deleteWhere, hstart]
      simp [hne] }

/-- The identity that a traced call gets. -/
theorem entered (h : Kept w) {ptr : UInt64} (ht : TracedEnter w thread ptr firing) :
    ∃ sequence created epochs sequences,
      w.maps.enteredIdentity thread ptr firing =
        ((currentIdentity w.maps.toKernelMaps thread firing.toProbe ptr 1 sequence, created),
          { w.maps with connectionEpochs := epochs, connectionSequences := sequences }) ∧
      sequence.toNat = (w.callsOf (w.connection thread ptr)).length + 1 ∧
      (created = true ↔ Untouched w ptr) ∧
      epochs.get? ptr = some 1 ∧ sequences.get? ptr = some sequence ∧
      ∀ ptr' ≠ ptr, epochs.get? ptr' = w.maps.connectionEpochs.get? ptr' ∧
        sequences.get? ptr' = w.maps.connectionSequences.get? ptr' := by
  by_cases huntouched : Untouched w ptr
  · obtain ⟨hepoch, hsequence⟩ := h.untouched ptr huntouched
    obtain ⟨hepochs, hsequences⟩ := ht.room huntouched
    have hcalls : w.callsOf (w.connection thread ptr) = [] := by
      rw [World.callsOf, List.filter_eq_nil_iff]
      intro call hcall heq
      exact huntouched call hcall (congrArg Connection.ptr (of_decide_eq_true heq))
    refine ⟨1, true, _, _, enteredIdentity_of_none hepoch hsequence hepochs hsequences, ?_,
      iff_of_true rfl huntouched, Table.get?_put_self .., Table.get?_put_self .., ?_⟩
    · rw [hcalls]
      rfl
    · intro ptr' hne
      exact ⟨Table.get?_put_of_ne hne, Table.get?_put_of_ne hne⟩
  · obtain ⟨call, hcall, hptr⟩ : ∃ call ∈ w.calls, call.connection.ptr = ptr := by
      simpa [Untouched] using huntouched
    have hconnection := ht.unshared call hcall hptr
    have hepoch := h.epochs call hcall
    obtain ⟨sequence, hsequence, hlength⟩ := h.sequences call hcall
    rw [hptr] at hepoch hsequence
    rw [hconnection] at hlength
    refine ⟨saturatingSucc sequence, false, _, _, enteredIdentity_of_some hepoch hsequence, ?_,
      iff_of_false (by simp) huntouched, hepoch, Table.get?_put_self .., ?_⟩
    · rw [toNat_saturatingSucc (by rw [hlength]; exact ht.few), hlength]
    · intro ptr' hne
      exact ⟨rfl, Table.get?_put_of_ne hne⟩

/-- Later records leave the first one of a connection. -/
theorem first_append {reports more : List Report} {c : Connection} {kind : ProbeKind}
    (h : (reports.filter (·.connection = c)).head?.map (·.record.header.kind) = some kind) :
    ((reports ++ more).filter (·.connection = c)).head?.map (·.record.header.kind) = some kind := by
  rw [List.filter_append]
  cases hfilter : reports.filter (·.connection = c) with
  | nil =>
      rw [hfilter] at h
      cases h
  | cons r rest =>
      rw [hfilter] at h
      exact h

/-- What a traced call adds. -/
structure Enters (w w' : World) (io : Io) (thread : Thread) (ptr : UInt64) (call : Call) : Prop where
  connection : call.connection = w.connection thread ptr
  number : call.number = (w.callsOf call.connection).length
  pointer : call.identity.connectionPtr = ptr
  epoch : call.identity.epoch = 1
  sequence : call.identity.callSequence.toNat = call.number + 1
  start : w.maps.processStart.get? thread.tgid = some call.identity.startTicks
  kernel : w'.maps.toKernelMaps = w.maps.toKernelMaps
  epochs : w'.maps.connectionEpochs.get? ptr = some 1
  sequences : w'.maps.connectionSequences.get? ptr = some call.identity.callSequence
  others : ∀ ptr' ≠ ptr,
    w'.maps.connectionEpochs.get? ptr' = w.maps.connectionEpochs.get? ptr' ∧
      w'.maps.connectionSequences.get? ptr' = w.maps.connectionSequences.get? ptr'
  inflight : ∀ inflight ∈ (w'.maps.inflight io).get? thread,
    connectionIdentityFromInflight w.maps inflight = call.identity
  otherInflight : ∀ io' thread', ¬ (io' = io ∧ thread' = thread) →
    (w'.maps.inflight io').get? thread' = (w.maps.inflight io').get? thread'
  calls : w'.calls = w.calls ++ [call]
  opened : w'.opened io thread = call :: w.opened io thread
  otherOpened : ∀ io' thread', ¬ (io' = io ∧ thread' = thread) →
    w'.opened io' thread' = w.opened io' thread'
  processes : w'.processes = w.processes
  outlived : w'.outlived = w.outlived
  reports : (¬ Untouched w ptr ∧ w'.reports = w.reports) ∨
    (Untouched w ptr ∧ ∃ record : CaptureRecord, record.header.kind = .connectionCreate ∧
      record.header.connection = call.identity ∧
      w'.reports = w.reports ++ [⟨call.connection, call.number, record⟩])

theorem enters (fileOffset : UInt64) (h : Kept w) {io : Io} {args : CallArgs}
    (ht : TracedEnter w thread args.connection firing) :
    ∃ call, Enters w (step w (.enter io thread args fileOffset firing)) io thread args.connection
      call := by
  obtain ⟨sequence, created, epochs, sequences, hentered, hsequence, hcreated, hepoch, hsequences,
    hothers⟩ := entered h ht
  obtain ⟨start, hstart⟩ := Option.isSome_iff_exists.mp ht.started
  have hio : tryPlaintextEnter io = plaintextEnter io := by cases io <;> rfl
  have houtput : ¬ (created = true ∧ firing.output = false) := by
    rintro ⟨hnew, hfull⟩
    rw [ht.output (hcreated.mp hnew)] at hfull
    cases hfull
  have hplaintext : tryPlaintextEnter io w.maps thread args fileOffset firing =
      (if created then
          some (emitRecord .connectionCreate .none
            (currentIdentity w.maps.toKernelMaps thread firing.toProbe args.connection 1 sequence)
            fileOffset 0 0 0 [] firing.toProbe)
        else none,
        CaptureMaps.setInflight
          { w.maps with connectionEpochs := epochs, connectionSequences := sequences } io
          (insertBounded MAX_INFLIGHT (w.maps.inflight io) thread
            { connectionPtr := args.connection
              bufPtr := args.buf
              requestedLen := UInt32.ofNat (min args.len.toNat (2 ^ 32 - 1))
              fileOffset
              epoch := 1
              callSequence := sequence
              tgid := thread.tgid
              pid := thread.pid
              startTicks := (w.maps.processStart.get? thread.tgid).getD firing.ktime })) := by
    rw [hio, plaintextEnter]
    simp only [hentered, if_neg houtput]
    cases io <;> rfl
  refine ⟨⟨w.connection thread args.connection,
    (w.callsOf (w.connection thread args.connection)).length,
    currentIdentity w.maps.toKernelMaps thread firing.toProbe args.connection 1 sequence⟩, ?_⟩
  simp only [step, hplaintext, hentered]
  constructor
  case connection => rfl
  case number => rfl
  case pointer => rfl
  case epoch => rfl
  case sequence => exact hsequence
  case start => simp [currentIdentity, hstart]
  case kernel => simp
  case epochs => simpa using hepoch
  case sequences =>
    rw [connectionSequences_setInflight]
    exact hsequences
  case others => simpa using hothers
  case inflight =>
    intro inflight hinflight
    rw [inflight_setInflight] at hinflight
    rw [eq_of_get?_insertBounded hinflight]
    rfl
  case otherInflight =>
    intro io' thread' hother
    by_cases hsame : io' = io
    · have hne : thread' ≠ thread := fun heq => hother ⟨hsame, heq⟩
      rw [hsame, inflight_setInflight]
      exact get?_insertBounded_of_ne hne
    · rw [inflight_setInflight_of_ne hsame]
      cases io' <;> rfl
  case calls => rfl
  case opened => exact if_pos ⟨rfl, rfl⟩
  case otherOpened =>
    intro io' thread' hother
    exact if_neg hother
  case processes => rfl
  case outlived => rfl
  case reports =>
    cases hnew : created with
    | false =>
        rw [hnew] at hcreated
        exact .inl ⟨fun huntouched => (nomatch hcreated.mpr huntouched), List.append_nil _⟩
    | true => exact .inr ⟨hcreated.mp hnew, _, rfl, rfl, rfl⟩

section Enter
variable {w' : World} {io : Io} {ptr : UInt64} {call : Call}

theorem Enters.mem_calls (he : Enters w w' io thread ptr call) {call' : Call} :
    call' ∈ w'.calls ↔ call' ∈ w.calls ∨ call' = call := by
  rw [he.calls, List.mem_append, List.mem_singleton]

theorem Enters.connection_ptr (he : Enters w w' io thread ptr call) : call.connection.ptr = ptr := by
  rw [he.connection]
  rfl

theorem Enters.process (he : Enters w w' io thread ptr call) (tgid : UInt32) :
    w'.process tgid = w.process tgid := by
  rw [World.process, World.process, he.processes]

/-- An earlier call under the pointer was on the same connection. -/
theorem Enters.unshared (he : Enters w w' io thread ptr call)
    (ht : TracedEnter w thread ptr firing) {call' : Call} (hcall : call' ∈ w.calls)
    (hptr : call'.connection.ptr = ptr) : call'.connection = call.connection := by
  rw [he.connection]
  exact ht.unshared call' hcall hptr

/-- The start of the process is that of its earlier calls on the connection. -/
theorem Enters.same (h : Kept w) (he : Enters w w' io thread ptr call)
    (ht : TracedEnter w thread ptr firing) {call' : Call} (hcall : call' ∈ w.calls)
    (hconnection : call'.connection = call.connection) :
    call'.identity.startTicks = call.identity.startTicks := by
  have hcurrent : call'.connection = w.connection thread ptr := hconnection.trans he.connection
  have hstart := h.started call' hcall (by rw [hcurrent]; rfl) (by rw [hcurrent]; exact ht.alive)
  rw [hcurrent] at hstart
  exact Option.some.inj (hstart.symm.trans he.start)

theorem Enters.callsOf (he : Enters w w' io thread ptr call) (c : Connection) :
    w'.callsOf c = w.callsOf c ++ if call.connection = c then [call] else [] := by
  rw [World.callsOf, World.callsOf, he.calls, List.filter_append, List.filter_singleton]
  simp

/-- The first record of a connection stays the first. -/
theorem Enters.first_of_mem (h : Kept w) (he : Enters w w' io thread ptr call) {old : Call}
    (hmem : old ∈ w.calls) : (w'.reportsOf old.connection).head?.map (·.record.header.kind) =
      some .connectionCreate := by
  have hfirst := h.first old hmem
  obtain ⟨-, hreports⟩ | ⟨-, record, -, -, hreports⟩ := he.reports
  · rwa [World.reportsOf, hreports]
  · rw [World.reportsOf, hreports]
    exact first_append hfirst

/-- The record of the first call under a pointer is the first of its connection. -/
theorem Enters.first_of_untouched (h : Kept w) (he : Enters w w' io thread ptr call)
    (huntouched : Untouched w ptr) : (w'.reportsOf call.connection).head?.map
      (·.record.header.kind) = some .connectionCreate := by
  obtain ⟨htouched, -⟩ | ⟨-, record, hkind, -, hreports⟩ := he.reports
  · exact absurd huntouched htouched
  · have hnone : w.reportsOf call.connection = [] := by
      rw [World.reportsOf, List.filter_eq_nil_iff]
      intro r hr heq
      obtain ⟨old, hmem, hconnection, -⟩ := h.reports r hr
      refine huntouched old hmem ?_
      rw [hconnection, of_decide_eq_true heq, he.connection_ptr]
    rw [World.reportsOf, hreports, List.filter_append, ← World.reportsOf, hnone]
    simp [hkind]

/-- The first record of every connection stays or becomes one of its creation. -/
theorem Enters.first (h : Kept w) (ht : TracedEnter w thread ptr firing)
    (he : Enters w w' io thread ptr call) {call' : Call} (hcall : call' ∈ w'.calls) :
    (w'.reportsOf call'.connection).head?.map (·.record.header.kind) = some .connectionCreate := by
  obtain hold | rfl := he.mem_calls.mp hcall
  · exact he.first_of_mem h hold
  · by_cases huntouched : Untouched w ptr
    · exact he.first_of_untouched h huntouched
    · obtain ⟨old, hmem, hptr⟩ : ∃ old ∈ w.calls, old.connection.ptr = ptr := by
        simpa [Untouched] using huntouched
      rw [← he.unshared ht hmem hptr]
      exact he.first_of_mem h hmem

/-- The stored sequence of a pointer is the number of the calls on its connection. -/
theorem Enters.sequenceOf (h : Kept w) (ht : TracedEnter w thread ptr firing)
    (he : Enters w w' io thread ptr call) {call' : Call} (hcall : call' ∈ w'.calls) :
    ∃ sequence, w'.maps.connectionSequences.get? call'.connection.ptr = some sequence ∧
      sequence.toNat = (w'.callsOf call'.connection).length := by
  rw [he.callsOf]
  by_cases hptr : call'.connection.ptr = ptr
  · have hconnection : call'.connection = call.connection := by
      obtain hold | rfl := he.mem_calls.mp hcall
      · exact he.unshared ht hold hptr
      · rfl
    refine ⟨call.identity.callSequence, hptr ▸ he.sequences, ?_⟩
    rw [hconnection, if_pos rfl, he.sequence, he.number, List.length_append]
    rfl
  · obtain hold | rfl := he.mem_calls.mp hcall
    · have hne : call.connection ≠ call'.connection := fun heq =>
        hptr (heq ▸ he.connection_ptr)
      rw [(he.others _ hptr).2, if_neg hne, List.append_nil]
      exact h.sequences call' hold
    · exact absurd he.connection_ptr hptr

/-- The call that a thread has open last is the one that is in flight. -/
theorem Enters.identityOf (h : Kept w) (he : Enters w w' io thread ptr call) {io' : Io}
    {thread' : Thread} {call' : Call} (hcall : call' ∈ (w'.opened io' thread').head?)
    {inflight : InflightIo} (hinflight : inflight ∈ (w'.maps.inflight io').get? thread') :
    connectionIdentityFromInflight w'.maps inflight = call'.identity := by
  have hboot : connectionIdentityFromInflight w'.maps inflight =
      connectionIdentityFromInflight w.maps inflight := by
    rw [connectionIdentityFromInflight, he.kernel]
    rfl
  rw [hboot]
  by_cases hsame : io' = io ∧ thread' = thread
  · rw [hsame.1, hsame.2, he.opened] at hcall
    rw [hsame.1, hsame.2] at hinflight
    obtain rfl := Option.some.inj hcall
    exact he.inflight inflight hinflight
  · rw [he.otherOpened io' thread' hsame] at hcall
    rw [he.otherInflight io' thread' hsame] at hinflight
    exact h.inflight io' thread' call' hcall inflight hinflight

/-- Every report is of a call, the one that enters or an earlier one. -/
theorem Enters.exists_call (h : Kept w) (he : Enters w w' io thread ptr call) {r : Report}
    (hr : r ∈ w'.reports) : ∃ call' ∈ w'.calls, call'.connection = r.connection ∧
      call'.number = r.number ∧ call'.identity = r.identity := by
  have hold : r ∈ w.reports → ∃ call' ∈ w'.calls, call'.connection = r.connection ∧
      call'.number = r.number ∧ call'.identity = r.identity := fun hr => by
    obtain ⟨call', hcall, hreport⟩ := h.reports r hr
    exact ⟨call', he.mem_calls.mpr (.inl hcall), hreport⟩
  obtain ⟨-, hreports⟩ | ⟨-, record, -, hidentity, hreports⟩ := he.reports
  · exact hold (hreports ▸ hr)
  · rw [hreports, List.mem_append, List.mem_singleton] at hr
    obtain hr | rfl := hr
    · exact hold hr
    · exact ⟨call, he.mem_calls.mpr (.inr rfl), rfl, rfl, hidentity.symm⟩

/-- The calls of one connection have one process start. -/
theorem Enters.startOf (h : Kept w) (ht : TracedEnter w thread ptr firing)
    (he : Enters w w' io thread ptr call) {a b : Call} (ha : a ∈ w'.calls) (hb : b ∈ w'.calls)
    (hconnection : a.connection = b.connection) :
    a.identity.startTicks = b.identity.startTicks := by
  obtain ha | rfl := he.mem_calls.mp ha <;> obtain hb | rfl := he.mem_calls.mp hb
  · exact h.same a ha b hb hconnection
  · exact he.same h ht ha hconnection
  · exact (he.same h ht hb hconnection.symm).symm
  · rfl

/-- The calls under one pointer are of one connection. -/
theorem Enters.connectionOf (h : Kept w) (ht : TracedEnter w thread ptr firing)
    (he : Enters w w' io thread ptr call) {a b : Call} (ha : a ∈ w'.calls) (hb : b ∈ w'.calls)
    (hptr : a.connection.ptr = b.connection.ptr) : a.connection = b.connection := by
  obtain ha | rfl := he.mem_calls.mp ha <;> obtain hb | rfl := he.mem_calls.mp hb
  · exact h.unshared a ha b hb hptr
  · exact he.unshared ht ha (hptr.trans he.connection_ptr)
  · exact (he.unshared ht hb (hptr.symm.trans he.connection_ptr)).symm
  · rfl

/-- A call that is entered keeps what identifies the connections. -/
theorem Enters.kept (h : Kept w) (ht : TracedEnter w thread ptr firing)
    (he : Enters w w' io thread ptr call) : Kept w' where
  known call' hcall := by
    rw [he.processes]
    obtain hold | rfl := he.mem_calls.mp hcall
    · exact h.known call' hold
    · rw [he.connection]
      exact le_rfl
  started call' hcall hprocess houtlived := by
    rw [he.process] at hprocess
    rw [he.outlived] at houtlived
    rw [he.kernel]
    obtain hold | rfl := he.mem_calls.mp hcall
    · exact h.started call' hold hprocess houtlived
    · rw [he.connection]
      exact he.start
  same a ha b hb := he.startOf h ht ha hb
  identity call' hcall := by
    obtain hold | rfl := he.mem_calls.mp hcall
    · exact h.identity call' hold
    · exact ⟨he.pointer.trans he.connection_ptr.symm, he.epoch, he.sequence⟩
  unshared a ha b hb := he.connectionOf h ht ha hb
  epochs call' hcall := by
    by_cases hptr : call'.connection.ptr = ptr
    · rw [hptr]
      exact he.epochs
    · obtain hold | rfl := he.mem_calls.mp hcall
      · rw [(he.others _ hptr).1]
        exact h.epochs call' hold
      · exact absurd he.connection_ptr hptr
  sequences call' hcall := he.sequenceOf h ht hcall
  untouched ptr' huntouched := by
    have hne : ptr' ≠ ptr := fun heq =>
      huntouched call (he.mem_calls.mpr (.inr rfl)) (he.connection_ptr.trans heq.symm)
    rw [(he.others ptr' hne).1, (he.others ptr' hne).2]
    exact h.untouched ptr' fun call' hold => huntouched call' (he.mem_calls.mpr (.inl hold))
  opened io' thread' call' hopened := by
    rw [he.mem_calls]
    by_cases hsame : io' = io ∧ thread' = thread
    · rw [hsame.1, hsame.2, he.opened, List.mem_cons] at hopened
      exact hopened.symm.imp_left fun hold => h.opened io thread call' hold
    · rw [he.otherOpened io' thread' hsame] at hopened
      exact .inl (h.opened io' thread' call' hopened)
  inflight io' thread' call' hcall inflight hinflight := he.identityOf h hcall hinflight
  reports r hr := he.exists_call h hr
  first call' hcall := he.first h ht hcall

end Enter

/-- What the return of a call adds. -/
structure Returns (w w' : World) (io : Io) (thread : Thread) : Prop where
  kernel : w'.maps.toKernelMaps = w.maps.toKernelMaps
  epochs : w'.maps.connectionEpochs = w.maps.connectionEpochs
  sequences : w'.maps.connectionSequences = w.maps.connectionSequences
  inflight : (w'.maps.inflight io).get? thread = none ∨ w'.opened io thread = []
  otherInflight : ∀ io' thread', ¬ (io' = io ∧ thread' = thread) →
    (w'.maps.inflight io').get? thread' = (w.maps.inflight io').get? thread'
  calls : w'.calls = w.calls
  opened : w'.opened io thread = (w.opened io thread).tail
  otherOpened : ∀ io' thread', ¬ (io' = io ∧ thread' = thread) →
    w'.opened io' thread' = w.opened io' thread'
  processes : w'.processes = w.processes
  outlived : w'.outlived = w.outlived
  reports : w'.reports = w.reports ∨ ∃ call ∈ (w.opened io thread).head?,
    ∃ record : CaptureRecord, record.header.connection = call.identity ∧
      w'.reports = w.reports ++ [⟨call.connection, call.number, record⟩]

/-- A return without a record leaves the maps as they are. -/
theorem returns_of_none {io : Io} {result : CallResult}
    (hreturn : tryPlaintextReturn io w.maps thread result firing = (none, w.maps))
    (hgone : (w.maps.inflight io).get? thread = none ∨ (w.opened io thread).tail = []) :
    Returns w (step w (.ret io thread result firing)) io thread := by
  simp only [step, hreturn]
  exact {
    kernel := rfl
    epochs := rfl
    sequences := rfl
    inflight := hgone.imp_right fun htail => (if_pos ⟨rfl, rfl⟩).trans htail
    otherInflight := fun _ _ _ => rfl
    calls := rfl
    opened := if_pos ⟨rfl, rfl⟩
    otherOpened := fun _ _ hother => if_neg hother
    processes := rfl
    outlived := rfl
    reports := .inl (by simp) }

theorem returns (h : Kept w) {io : Io} {result : CallResult}
    (ht : firing.output = true ∨ (w.opened io thread).length ≤ 1) :
    Returns w (step w (.ret io thread result firing)) io thread := by
  obtain ⟨kind, direction, payload, hio⟩ : ∃ kind direction payload,
      tryPlaintextReturn io = plaintextReturn io kind direction payload := by
    cases io <;> exact ⟨_, _, _, rfl⟩
  cases hinflight : (w.maps.inflight io).get? thread with
  | none =>
      exact returns_of_none (by simp only [hio, plaintextReturn, hinflight]) (.inl hinflight)
  | some inflight =>
      cases houtput : firing.output with
      | false =>
          have hlength : (w.opened io thread).length ≤ 1 :=
            ht.resolve_left (by rw [houtput]; exact Bool.false_ne_true)
          refine returns_of_none ?_ (.inr ?_)
          · simp only [hio, plaintextReturn, hinflight, houtput, Bool.false_eq_true, if_false]
          · rw [← List.length_eq_zero_iff, List.length_tail]
            omega
      | true =>
          have hreturn : tryPlaintextReturn io w.maps thread result firing =
              (some (emitRecord kind direction (connectionIdentityFromInflight w.maps inflight)
                inflight.fileOffset 0 result.rawTag.toUInt32 result.rawLen (payload inflight result)
                firing.toProbe), w.maps.setInflight io
                ((w.maps.inflight io).deleteWhere fun key _ => key = thread)) := by
            simp only [hio, plaintextReturn, hinflight, houtput, if_true]
          simp only [step, hreturn]
          exact {
            kernel := toKernelMaps_setInflight _
            epochs := connectionEpochs_setInflight _
            sequences := connectionSequences_setInflight _
            inflight := .inl (by
              rw [inflight_setInflight, Table.get?_delete, if_pos rfl])
            otherInflight := fun io' thread' hother => by
              by_cases hsame : io' = io
              · have hne : thread' ≠ thread := fun heq => hother ⟨hsame, heq⟩
                rw [hsame, inflight_setInflight, Table.get?_delete, if_neg hne]
              · rw [inflight_setInflight_of_ne hsame]
            calls := rfl
            opened := if_pos ⟨rfl, rfl⟩
            otherOpened := fun _ _ hother => if_neg hother
            processes := rfl
            outlived := rfl
            reports := by
              cases hopened : w.opened io thread with
              | nil => exact .inl (by simp)
              | cons call rest =>
                  have hcall := h.inflight io thread call (by rw [hopened]; rfl) inflight hinflight
                  exact .inr ⟨call, rfl, _, hcall, rfl⟩ }

theorem Returns.kept {w' : World} {io : Io} (h : Kept w) (hr : Returns w w' io thread) :
    Kept w' where
  known call hcall := by
    rw [hr.processes]
    exact h.known call (hr.calls ▸ hcall)
  started call hcall hprocess houtlived := by
    rw [World.process, hr.processes] at hprocess
    rw [hr.outlived] at houtlived
    rw [hr.kernel]
    exact h.started call (hr.calls ▸ hcall) hprocess houtlived
  same := by
    rw [hr.calls]
    exact h.same
  identity := by
    rw [hr.calls]
    exact h.identity
  unshared := by
    rw [hr.calls]
    exact h.unshared
  epochs := by
    rw [hr.calls, hr.epochs]
    exact h.epochs
  sequences := by
    rw [hr.sequences]
    simp only [World.callsOf, hr.calls]
    exact h.sequences
  untouched := by
    rw [hr.epochs, hr.sequences]
    simp only [Untouched, hr.calls]
    exact h.untouched
  opened io' thread' call hcall := by
    rw [hr.calls]
    by_cases hsame : io' = io ∧ thread' = thread
    · rw [hsame.1, hsame.2, hr.opened] at hcall
      exact h.opened io thread call (List.mem_of_mem_tail hcall)
    · rw [hr.otherOpened io' thread' hsame] at hcall
      exact h.opened io' thread' call hcall
  inflight io' thread' call hcall inflight hinflight := by
    by_cases hsame : io' = io ∧ thread' = thread
    · rw [hsame.1, hsame.2] at hcall hinflight
      obtain hnone | hnone := hr.inflight
      · rw [hnone] at hinflight
        cases hinflight
      · rw [hnone] at hcall
        cases hcall
    · rw [hr.otherOpened io' thread' hsame] at hcall
      rw [hr.otherInflight io' thread' hsame] at hinflight
      rw [connectionIdentityFromInflight, hr.kernel]
      exact h.inflight io' thread' call hcall inflight hinflight
  reports r hreport := by
    rw [hr.calls]
    obtain hreports | ⟨call, hcall, record, hidentity, hreports⟩ := hr.reports
    · exact h.reports r (hreports ▸ hreport)
    · rw [hreports, List.mem_append, List.mem_singleton] at hreport
      obtain hold | rfl := hreport
      · exact h.reports r hold
      · exact ⟨call, h.opened io thread call (List.mem_of_mem_head? hcall), rfl, rfl,
          hidentity.symm⟩
  first call hcall := by
    have hfirst := h.first call (hr.calls ▸ hcall)
    obtain hreports | ⟨_, -, record, -, hreports⟩ := hr.reports
    · rwa [World.reportsOf, hreports]
    · rw [World.reportsOf, hreports]
      exact first_append hfirst

/-- A traced firing keeps what is kept. -/
theorem kept_step (h : Kept w) {event : Event} (ht : Traced w event) : Kept (step w event) := by
  cases event with
  | start tgid => exact kept_start h tgid
  | allocate tgid ptr => exact kept_allocate h tgid ptr
  | exec thread firing => exact kept_exec h thread firing
  | exit thread firing => exact kept_exit h thread firing
  | tcpState thread sock state firing => exact h
  | enter io thread args fileOffset firing =>
      obtain ⟨call, hcall⟩ := enters fileOffset h ht
      exact hcall.kept h ht
  | ret io thread result firing => exact (returns h ht).kept h

end Steps

/-! ## Runs -/

/-- The records of traced firings tell the connections and their calls apart. -/
theorem identifies_run {bootId : Vector UInt8 16} {events : List Event}
    (h : Run.Each step Traced (.new bootId) events) :
    Identifies (Run.run step (.new bootId) events) := by
  have hkept := Run.invariant_of_each (I := Kept) (fun _ _ hw ht => kept_step hw ht)
    (kept_new bootId) h
  exact hkept.identifies

/-! ## One pointer -/

def firingAt (ktime : UInt64) : Firing where
  ktime
  comm := none
  scratch := Vector.replicate MAX_CAPTURE_BYTES 0
  output := true

/-- A write of two bytes on the connection at that address. -/
def writeAt (thread : Thread) (ptr ktime : UInt64) : List Event :=
  [.enter .write thread ⟨ptr, 0, 2⟩ 0x27f34b0 (firingAt ktime),
    .ret .write thread ⟨0, 2, [104, 105]⟩ (firingAt ktime)]

/-- A process that starts under the probes writes twice. -/
theorem identifies_twice : Identifies (Run.run step (.new (Vector.replicate 16 0))
    ([.start 7, .exec ⟨7, 7⟩ (firingAt 100)] ++ writeAt ⟨7, 7⟩ 4096 200 ++
      writeAt ⟨7, 9⟩ 4096 300)) :=
  identifies_run (by decide +kernel)

/-- Two processes have a connection at one address. -/
theorem not_identifies_shared : ¬ ∀ (bootId : Vector UInt8 16) (events : List Event),
    Identifies (Run.run step (.new bootId) events) := by
  intro h
  have hsequence := (h (Vector.replicate 16 0)
    ([.start 7, .exec ⟨7, 7⟩ (firingAt 100), .start 8, .exec ⟨8, 8⟩ (firingAt 110)] ++
      writeAt ⟨7, 7⟩ 4096 200 ++ writeAt ⟨8, 8⟩ 4096 300)).sequence
  revert hsequence
  decide +kernel

end Codexwatch.CaptureEbpf.Connections
