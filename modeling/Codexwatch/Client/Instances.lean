import Codexwatch.Lib.Run
import Codexwatch.Client.Discovery

/-!
# Processes and their reports

Discovery knows a process by its number and its executable. It takes a process for gone
when it cannot read its link, or does not find it listed; it takes the next process with
the number and the executable for the one before; and it never reports one whose sockets
could not be read when it was first seen.

## Main definitions

* `Polls.World`, `Polls.step` — the discovery, and what the polls so far reported.
* `Polls.OneToOne` — the reports tell the processes apart.
* `Polls.Environment` — what the kernel and the identifiers promise.
* `Polls.Traceable` — a poll in which none of the above happens.
* `Polls.oneToOne_run` — the reports of such polls.
-/
namespace Codexwatch.Client.Polls

open Protocol Relational ProcfsProcessDiscovery

/-- A poll: what it could read, what it reported and what is observed since. -/
structure Polled where
  procfs : Procfs
  events : List CaptureInput
  observed : Table ℕ ObservedProcess

structure World where
  discovery : ProcfsProcessDiscovery
  history : List Polled

/-- Before the first poll; the digest of the configured executable may be known. -/
def World.new (hashes : Table String String) : World := ⟨⟨.empty, hashes, .empty⟩, []⟩

/-- What a poll leaves of itself. -/
def polled (config : DiscoveryConfig) (w : World) (procfs : Procfs) : Polled :=
  ⟨procfs, (poll config procfs w.discovery).1, (poll config procfs w.discovery).2.observed⟩

def step (config : DiscoveryConfig) (w : World) (procfs : Procfs) : World :=
  ⟨(poll config procfs w.discovery).2, w.history ++ [polled config w procfs]⟩

/-- The poll knows the process by this identifier. -/
def Polled.Attributes (r : Polled) (id : Uuid) (i : ProcessInstance) : Prop :=
  r.procfs.instance? i.pid = some i ∧
    ∃ observed, r.observed.get? i.pid = some observed ∧ observed.processInstanceId = id

/-- The process is listed, and its link, its executable and its sockets are read. -/
structure Readable (config : DiscoveryConfig) (procfs : Procfs) (i : ProcessInstance) : Prop where
  running : procfs.instance? i.pid = some i
  listed : i.pid ∈ procfs.discoverPids config
  executable : ∃ path, procfs.executablePath i.pid = some path ∧ (procfs.files path).isOk = true
  flows : (procfs.flowIndex i.pid).isOk = true

namespace World
variable (w : World)

def Attributed (id : Uuid) (i : ProcessInstance) : Prop := ∃ r ∈ w.history, r.Attributes id i

/-- The process ran at the last poll. -/
def Running (i : ProcessInstance) : Prop :=
  ∃ r ∈ w.history.getLast?, r.procfs.instance? i.pid = some i

/-- The process ran at some poll. -/
def Ran (i : ProcessInstance) : Prop := ∃ r ∈ w.history, r.procfs.instance? i.pid = some i

/-- The identifier was given to a process. -/
def Used (id : Uuid) : Prop :=
  ∃ r ∈ w.history, ∃ row ∈ r.observed.rows, row.2.processInstanceId = id

instance (i : ProcessInstance) : Decidable (w.Running i) :=
  inferInstanceAs (Decidable (∃ r ∈ w.history.getLast?, _))

instance (i : ProcessInstance) : Decidable (w.Ran i) :=
  inferInstanceAs (Decidable (∃ r ∈ w.history, _))

instance (id : Uuid) : Decidable (w.Used id) := inferInstanceAs (Decidable (∃ r ∈ w.history, _))

/-- The processes that were reported as observed. -/
def observedInstances : List ProcessInstance :=
  w.history.flatMap fun r => (observations r.events).filterMap fun process =>
    r.procfs.instance? process.pid

/-- The processes that were reported as exited. -/
def exited : List ProcessSummary := w.history.flatMap fun r => exits r.events

end World

/-- The reports tell the processes apart. -/
structure OneToOne (config : DiscoveryConfig) (w : World) : Prop where
  observed : ∀ i, (∃ r ∈ w.history, Readable config r.procfs i) →
    w.observedInstances.count i = 1
  exitedOnce : ∀ i (j k : ℕ) (p q : ProcessSummary), w.exited[j]? = some p → w.exited[k]? = some q →
    w.Attributed p.processInstanceId i → w.Attributed q.processInstanceId i → j = k
  exitedAfter : ∀ r ∈ w.history, ∀ process ∈ exits r.events, ∀ i,
    w.Attributed process.processInstanceId i → r.procfs.instance? i.pid ≠ some i
  distinct : ∀ id i j, w.Attributed id i → w.Attributed id j → i = j

/-- A process that has ended does not run again, and identifiers are drawn once. -/
structure Environment (config : DiscoveryConfig) (w : World) (procfs : Procfs) : Prop where
  ended : ∀ row ∈ procfs.processes.rows, w.Ran ⟨row.1, row.2.startTime⟩ →
    w.Running ⟨row.1, row.2.startTime⟩
  drawn : ((procfs.discoverPids config).map procfs.nowV7).Nodup
  fresh : ∀ pid ∈ procfs.discoverPids config, ¬ w.Used (procfs.nowV7 pid)

/-- The observed processes that still run are found with their executables, and no other
process in their place; the sockets of a new one are read. -/
structure Traceable (config : DiscoveryConfig) (w : World) (procfs : Procfs) : Prop where
  seen : ∀ row ∈ w.discovery.observed.rows, ∀ i ∈ procfs.instance? row.1, w.Running i →
    row.1 ∈ procfs.discoverPids config ∧
      procfs.executablePath row.1 = some row.2.executablePath
  same : ∀ row ∈ w.discovery.observed.rows, row.1 ∈ procfs.discoverPids config →
    procfs.executablePath row.1 = some row.2.executablePath →
    ∀ i ∈ procfs.instance? row.1, w.Running i
  opened : ∀ pid ∈ procfs.discoverPids config, ∀ path ∈ procfs.executablePath pid,
    w.discovery.existing pid path = none →
    (w.discovery.executableHashes.get? path).isSome ∨ (procfs.files path).isOk →
    (procfs.flowIndex pid).isOk

instance (config : DiscoveryConfig) (w : World) (procfs : Procfs) :
    Decidable (Environment config w procfs) :=
  decidable_of_iff (_ ∧ _ ∧ _) ⟨fun h => ⟨h.1, h.2.1, h.2.2⟩, fun h => ⟨h.1, h.2, h.3⟩⟩

instance (config : DiscoveryConfig) (w : World) (procfs : Procfs) :
    Decidable (Traceable config w procfs) :=
  decidable_of_iff (_ ∧ _ ∧ _) ⟨fun h => ⟨h.1, h.2.1, h.2.2⟩, fun h => ⟨h.1, h.2, h.3⟩⟩

/-! ## One poll -/

/-- What the polls so far keep. -/
structure Kept (w : World) : Prop where
  running : ∀ pid observed, w.discovery.observed.get? pid = some observed →
    ∃ i : ProcessInstance, i.pid = pid ∧ w.Running i ∧ w.Attributed observed.processInstanceId i
  current : ∀ id i, w.Attributed id i → w.Running i →
    ∃ observed, w.discovery.observed.get? i.pid = some observed ∧ observed.processInstanceId = id
  distinct : ∀ id i j, w.Attributed id i → w.Attributed id j → i = j
  single : ∀ id id' i, w.Attributed id i → w.Attributed id' i → id = id'
  observedNodup : w.observedInstances.Nodup
  observed : ∀ i, i ∈ w.observedInstances ↔ ∃ id, w.Attributed id i
  exitedNodup : (w.exited.map ProcessSummary.processInstanceId).Nodup
  exitedUsed : ∀ process ∈ w.exited, w.Used process.processInstanceId
  exitedGone : ∀ process ∈ w.exited, ∀ pid observed,
    w.discovery.observed.get? pid = some observed →
    observed.processInstanceId ≠ process.processInstanceId
  exitedAfter : ∀ r ∈ w.history, ∀ process ∈ exits r.events, ∀ i,
    w.Attributed process.processInstanceId i → r.procfs.instance? i.pid ≠ some i

section Step
variable {config : DiscoveryConfig} {w : World} {procfs : Procfs} {id : Uuid} {i : ProcessInstance}

theorem World.Attributed.used (h : w.Attributed id i) : w.Used id := by
  obtain ⟨r, hr, -, observed, hobserved, hid⟩ := h
  exact ⟨r, hr, (i.pid, observed), Table.get?_eq_some.mp hobserved, hid⟩

theorem World.Attributed.ran (h : w.Attributed id i) : w.Ran i := by
  obtain ⟨r, hr, hrunning, -⟩ := h
  exact ⟨r, hr, hrunning⟩

theorem attributed_step : (step config w procfs).Attributed id i ↔
    w.Attributed id i ∨ (polled config w procfs).Attributes id i := by
  simp [World.Attributed, step, or_and_right, exists_or]

theorem running_step :
    (step config w procfs).Running i ↔ procfs.instance? i.pid = some i := by
  simp [World.Running, step, polled]

theorem exited_step : (step config w procfs).exited =
    w.exited ++ exits (poll config procfs w.discovery).1 := by
  simp [World.exited, step, polled]

theorem observedInstances_step : (step config w procfs).observedInstances =
    w.observedInstances ++ ((procfs.discoverPids config).filterMap
      (announced config procfs w.discovery)).filterMap fun process =>
        procfs.instance? process.pid := by
  simp [World.observedInstances, step, polled, observations_poll]

theorem attributes_polled : (polled config w procfs).Attributes id i ↔
    procfs.instance? i.pid = some i ∧ i.pid ∈ procfs.discoverPids config ∧
      ∃ observed isNew, found procfs w.discovery i.pid = some (observed, isNew) ∧
        observed.processInstanceId = id := by
  rw [Polled.Attributes, polled]
  dsimp only
  rw [observed_poll]
  by_cases hlisted : i.pid ∈ procfs.discoverPids config
  · simp [hlisted]
  · simp [hlisted]

variable (hw : Kept w) (henv : Environment config w procfs) (htrace : Traceable config w procfs)

include henv in
theorem Environment.running_of_ran (h : procfs.instance? i.pid = some i) (hran : w.Ran i) :
    w.Running i := by
  obtain ⟨entry, hentry, hi⟩ := Option.map_eq_some_iff.mp h
  have hended := henv.ended (i.pid, entry) (Table.get?_eq_some.mp hentry)
  rw [hi] at hended
  exact hended hran

include hw in
theorem Kept.used_of_observed {pid : ℕ} {observed : ObservedProcess}
    (h : w.discovery.observed.get? pid = some observed) : w.Used observed.processInstanceId := by
  obtain ⟨i, -, -, hattributed⟩ := hw.running pid observed h
  exact hattributed.used

include hw henv htrace in
/-- A known process that still runs is found again. -/
theorem found_of_attributed (h : w.Attributed id i) (hrunning : procfs.instance? i.pid = some i) :
    i.pid ∈ procfs.discoverPids config ∧
      ∃ observed, w.discovery.observed.get? i.pid = some observed ∧
        observed.processInstanceId = id ∧ found procfs w.discovery i.pid = some (observed, false) := by
  have hlast := henv.running_of_ran hrunning h.ran
  obtain ⟨observed, hobserved, hid⟩ := hw.current id i h hlast
  obtain ⟨hlisted, hpath⟩ := htrace.seen (i.pid, observed) (Table.get?_eq_some.mp hobserved) i
    hrunning hlast
  exact ⟨hlisted, observed, hobserved, hid, found_eq_again.mpr ⟨hobserved, hpath⟩⟩

include hw htrace in
/-- A process that is found again is known already. -/
theorem attributed_of_found {observed : ObservedProcess}
    (hfound : found procfs w.discovery i.pid = some (observed, false))
    (hlisted : i.pid ∈ procfs.discoverPids config) (hrunning : procfs.instance? i.pid = some i) :
    w.Attributed observed.processInstanceId i := by
  obtain ⟨hobserved, hpath⟩ := found_eq_again.mp hfound
  have hlast := htrace.same (i.pid, observed) (Table.get?_eq_some.mp hobserved) hlisted hpath i
    hrunning
  obtain ⟨j, hpid, hrun, hattributed⟩ := hw.running i.pid observed hobserved
  obtain ⟨r, hr, hi⟩ := hlast
  obtain ⟨r', hr', hj⟩ := hrun
  obtain rfl := Option.some.inj (hr.symm.trans hr')
  rw [hpid, hi] at hj
  obtain rfl := Option.some.inj hj
  exact hattributed

include hw henv htrace in
/-- A new process was never known, and is reported with a new identifier. -/
theorem new_of_found {observed : ObservedProcess}
    (hfound : found procfs w.discovery i.pid = some (observed, true))
    (hlisted : i.pid ∈ procfs.discoverPids config) (hrunning : procfs.instance? i.pid = some i) :
    (∀ id, ¬ w.Attributed id i) ∧ observed.processInstanceId = procfs.nowV7 i.pid ∧
      announced config procfs w.discovery i.pid = some (observed.summary config none) ∧
      observed.pid = i.pid := by
  refine ⟨?_, ?_⟩
  · intro id hattributed
    obtain ⟨-, old, -, -, hagain⟩ := found_of_attributed hw henv htrace hattributed hrunning
    cases hfound.symm.trans hagain
  · obtain ⟨path, hash, hpath, hexisting, hread, rfl⟩ := found_eq_new hfound
    refine ⟨rfl, ?_, rfl⟩
    have hopen := htrace.opened i.pid hlisted path hpath hexisting hread
    rw [announced, hfound]
    cases hflows : procfs.flowIndex i.pid with
    | error e => simp [hflows, Except.isOk, Except.toBool] at hopen
    | ok index => rfl

include hw henv htrace in
/-- What a poll knows of a process: as before, or for the first time. -/
theorem attributes_cases (h : (polled config w procfs).Attributes id i) :
    w.Attributed id i ∨ (id = procfs.nowV7 i.pid ∧ i.pid ∈ procfs.discoverPids config ∧
      ¬ w.Used id ∧ (∀ id', ¬ w.Attributed id' i)) := by
  obtain ⟨hrunning, hlisted, observed, isNew, hfound, rfl⟩ := attributes_polled.mp h
  cases isNew with
  | false => exact .inl (attributed_of_found hw htrace hfound hlisted hrunning)
  | true =>
      obtain ⟨hnever, hid, -⟩ := new_of_found hw henv htrace hfound hlisted hrunning
      rw [hid]
      exact .inr ⟨rfl, hlisted, henv.fresh i.pid hlisted, hnever⟩

include hw henv htrace in
/-- An identifier in use is given to no other process. -/
theorem attributed_of_used (h : (step config w procfs).Attributed id i) (hused : w.Used id) :
    w.Attributed id i := by
  obtain hold | hnow := attributed_step.mp h
  · exact hold
  · obtain hold | ⟨-, -, hfresh, -⟩ := attributes_cases hw henv htrace hnow
    · exact hold
    · exact absurd hused hfresh

include hw henv htrace in
theorem distinct_step {j : ProcessInstance} (hi : (step config w procfs).Attributed id i)
    (hj : (step config w procfs).Attributed id j) : i = j := by
  by_cases hused : w.Used id
  · exact hw.distinct id i j (attributed_of_used hw henv htrace hi hused)
      (attributed_of_used hw henv htrace hj hused)
  · -- both are new, under one number
    have hnew : ∀ k, (step config w procfs).Attributed id k → id = procfs.nowV7 k.pid ∧
        k.pid ∈ procfs.discoverPids config ∧ procfs.instance? k.pid = some k := by
      intro k hk
      have hnot : ¬ w.Attributed id k := fun hold => hused hold.used
      have hnow := (attributed_step.mp hk).resolve_left hnot
      obtain ⟨hid, hlisted, -⟩ := (attributes_cases hw henv htrace hnow).resolve_left hnot
      exact ⟨hid, hlisted, hnow.1⟩
    obtain ⟨hidi, hlistedi, hruni⟩ := hnew i hi
    obtain ⟨hidj, hlistedj, hrunj⟩ := hnew j hj
    have hpid : i.pid = j.pid :=
      List.inj_on_of_nodup_map henv.drawn hlistedi hlistedj (hidi.symm.trans hidj)
    rw [hpid, hrunj] at hruni
    exact (Option.some.inj hruni).symm

include hw henv htrace in
theorem single_step {id' : Uuid} (h : (step config w procfs).Attributed id i)
    (h' : (step config w procfs).Attributed id' i) : id = id' := by
  have hcases : ∀ id, (step config w procfs).Attributed id i → w.Attributed id i ∨
      (id = procfs.nowV7 i.pid ∧ ∀ id', ¬ w.Attributed id' i) := by
    intro id h
    obtain hold | hnow := attributed_step.mp h
    · exact .inl hold
    · obtain hold | ⟨hid, -, -, hnever⟩ := attributes_cases hw henv htrace hnow
      · exact .inl hold
      · exact .inr ⟨hid, hnever⟩
  obtain hold | ⟨hid, hnever⟩ := hcases id h
  · obtain hold' | ⟨-, hnever⟩ := hcases id' h'
    · exact hw.single id id' i hold hold'
    · exact absurd hold (hnever id)
  · obtain hold' | ⟨hid', -⟩ := hcases id' h'
    · exact absurd hold' (hnever id')
    · exact hid.trans hid'.symm

include hw henv htrace in
theorem current_step (h : (step config w procfs).Attributed id i)
    (hrunning : (step config w procfs).Running i) :
    ∃ observed, (step config w procfs).discovery.observed.get? i.pid = some observed ∧
      observed.processInstanceId = id := by
  rw [running_step] at hrunning
  obtain hold | ⟨-, hnow⟩ := attributed_step.mp h
  · obtain ⟨hlisted, observed, -, hid, hfound⟩ := found_of_attributed hw henv htrace hold hrunning
    refine ⟨observed, ?_, hid⟩
    rw [step, observed_poll, if_pos hlisted, hfound]
    rfl
  · exact hnow

/-- What is observed after a poll was found by it, with a process that runs. -/
theorem found_of_observed {pid : ℕ} {observed : ObservedProcess}
    (h : (step config w procfs).discovery.observed.get? pid = some observed) :
    ∃ i : ProcessInstance, i.pid = pid ∧ procfs.instance? pid = some i ∧
      (polled config w procfs).Attributes observed.processInstanceId i := by
  have hget : (poll config procfs w.discovery).2.observed.get? pid = some observed := h
  rw [observed_poll] at hget
  split at hget
  · obtain ⟨⟨entry, isNew⟩, hfound, rfl⟩ := Option.map_eq_some_iff.mp hget
    have hpath : (procfs.executablePath pid).isSome := by
      cases isNew with
      | true =>
          obtain ⟨path, hash, hpath, -⟩ := found_eq_new hfound
          rw [hpath]
          rfl
      | false =>
          rw [(found_eq_again.mp hfound).2]
          rfl
    obtain ⟨path, hpath⟩ := Option.isSome_iff_exists.mp hpath
    obtain ⟨proc, hproc, -⟩ := Option.bind_eq_some_iff.mp hpath
    have hinstance : procfs.instance? pid = some ⟨pid, proc.startTime⟩ := by
      rw [Procfs.instance?, hproc]
      rfl
    refine ⟨⟨pid, proc.startTime⟩, rfl, hinstance, ?_⟩
    exact attributes_polled.mpr ⟨hinstance, ‹_›, entry, isNew, hfound, rfl⟩
  · cases hget

/-! ## What is reported -/

/-- The processes that a poll reports as observed. -/
def reported (config : DiscoveryConfig) (w : World) (procfs : Procfs) : List ProcessInstance :=
  ((procfs.discoverPids config).filterMap (announced config procfs w.discovery)).filterMap
    fun process => procfs.instance? process.pid

theorem mem_reported : i ∈ reported config w procfs ↔
    i.pid ∈ procfs.discoverPids config ∧ procfs.instance? i.pid = some i ∧
      (announced config procfs w.discovery i.pid).isSome := by
  rw [reported, List.mem_filterMap]
  constructor
  · rintro ⟨process, hprocess, hinstance⟩
    obtain ⟨pid, hlisted, hannounced⟩ := List.mem_filterMap.mp hprocess
    obtain ⟨rfl, -⟩ := pid_of_announced hannounced
    rw [Procfs.pid_of_instance? hinstance]
    exact ⟨hlisted, hinstance, by rw [hannounced]; rfl⟩
  · rintro ⟨hlisted, hinstance, hannounced⟩
    obtain ⟨process, hprocess⟩ := Option.isSome_iff_exists.mp hannounced
    refine ⟨process, List.mem_filterMap.mpr ⟨i.pid, hlisted, hprocess⟩, ?_⟩
    rw [(pid_of_announced hprocess).1]
    exact hinstance

theorem nodup_reported : (reported config w procfs).Nodup := by
  rw [reported, List.filterMap_filterMap]
  refine (procfs.nodup_discoverPids config).filterMap ?_
  intro pid pid' i hi hi'
  obtain ⟨process, hprocess, hinstance⟩ := Option.bind_eq_some_iff.mp hi
  obtain ⟨process', hprocess', hinstance'⟩ := Option.bind_eq_some_iff.mp hi'
  rw [(pid_of_announced hprocess).1] at hinstance
  rw [(pid_of_announced hprocess').1] at hinstance'
  exact (Procfs.pid_of_instance? hinstance).symm.trans (Procfs.pid_of_instance? hinstance')

include hw henv htrace in
theorem observed_step : i ∈ (step config w procfs).observedInstances ↔
    ∃ id, (step config w procfs).Attributed id i := by
  rw [observedInstances_step, List.mem_append, hw.observed]
  constructor
  · rintro (⟨id, hold⟩ | hnew)
    · exact ⟨id, attributed_step.mpr (.inl hold)⟩
    · obtain ⟨hlisted, hinstance, hannounced⟩ := mem_reported.mp hnew
      obtain ⟨process, hprocess⟩ := Option.isSome_iff_exists.mp hannounced
      obtain ⟨-, observed, hfound⟩ := pid_of_announced hprocess
      exact ⟨_, attributed_step.mpr (.inr
        (attributes_polled.mpr ⟨hinstance, hlisted, observed, true, hfound, rfl⟩))⟩
  · rintro ⟨id, h⟩
    obtain hold | hnow := attributed_step.mp h
    · exact .inl ⟨id, hold⟩
    · obtain ⟨hinstance, hlisted, observed, isNew, hfound, rfl⟩ := attributes_polled.mp hnow
      cases isNew with
      | false => exact .inl ⟨_, attributed_of_found hw htrace hfound hlisted hinstance⟩
      | true =>
          obtain ⟨-, -, hannounced, -⟩ := new_of_found hw henv htrace hfound hlisted hinstance
          exact .inr (mem_reported.mpr ⟨hlisted, hinstance, by rw [hannounced]; rfl⟩)

include hw henv htrace in
theorem observedNodup_step : (step config w procfs).observedInstances.Nodup := by
  rw [observedInstances_step]
  refine List.nodup_append'.mpr ⟨hw.observedNodup, nodup_reported, ?_⟩
  intro i hold hnew
  obtain ⟨hlisted, hinstance, hannounced⟩ := mem_reported.mp hnew
  obtain ⟨process, hprocess⟩ := Option.isSome_iff_exists.mp hannounced
  obtain ⟨-, observed, hfound⟩ := pid_of_announced hprocess
  obtain ⟨id, hattributed⟩ := (hw.observed i).mp hold
  exact (new_of_found hw henv htrace hfound hlisted hinstance).1 id hattributed

/-- A process that the poll reports as exited was observed, and is not any more. -/
structure Lost (config : DiscoveryConfig) (w : World) (procfs : Procfs) (pid : ℕ) (id : Uuid) :
    Prop where
  before : ∃ observed, w.discovery.observed.get? pid = some observed ∧
    observed.processInstanceId = id
  after : (step config w procfs).discovery.observed.get? pid = none

include hw in
theorem exits_step : ((exits (poll config procfs w.discovery).1).map
      ProcessSummary.processInstanceId).Nodup ∧
    ∀ process ∈ exits (poll config procfs w.discovery).1,
      ∃ pid, Lost config w procfs pid process.processInstanceId := by
  obtain ⟨rows, hexits, hnodup, hrows⟩ := exits_poll config procfs w.discovery
  rw [hexits]
  refine ⟨?_, ?_⟩
  · rw [List.map_map]
    refine (List.Nodup.of_map _ hnodup).map_on ?_
    intro row hrow row' hrow' hid
    obtain ⟨i, hi, -, hattributed⟩ := hw.running row.1 row.2 ((hrows row).mp hrow).1
    obtain ⟨j, hj, -, hattributed'⟩ := hw.running row'.1 row'.2 ((hrows row').mp hrow').1
    have hsame : row.2.processInstanceId = row'.2.processInstanceId := hid
    rw [hsame] at hattributed
    obtain rfl := hw.distinct _ i j hattributed hattributed'
    exact List.inj_on_of_nodup_map hnodup hrow hrow' (hi.symm.trans hj)
  · intro process hprocess
    obtain ⟨row, hrow, rfl⟩ := List.mem_map.mp hprocess
    obtain ⟨hbefore, hafter⟩ := (hrows row).mp hrow
    exact ⟨row.1, ⟨row.2, hbefore, rfl⟩, hafter⟩

include hw in
theorem Lost.used {pid : ℕ} (h : Lost config w procfs pid id) : w.Used id := by
  obtain ⟨observed, hobserved, rfl⟩ := h.before
  exact hw.used_of_observed hobserved

include hw in
/-- The lost process was observed under its number. -/
theorem Lost.pid_eq {pid : ℕ} (h : Lost config w procfs pid id) (hattributed : w.Attributed id i) :
    i.pid = pid := by
  obtain ⟨observed, hobserved, rfl⟩ := h.before
  obtain ⟨j, rfl, -, hj⟩ := hw.running pid observed hobserved
  rw [hw.distinct _ i j hattributed hj]

include hw henv htrace in
/-- A lost process does not run. -/
theorem Lost.not_running {pid : ℕ} (h : Lost config w procfs pid id)
    (hattributed : w.Attributed id i) : procfs.instance? i.pid ≠ some i := by
  intro hrunning
  obtain ⟨hlisted, observed, -, -, hfound⟩ := found_of_attributed hw henv htrace hattributed hrunning
  have hafter := h.after
  rw [← h.pid_eq hw hattributed, step, observed_poll, if_pos hlisted, hfound] at hafter
  cases hafter

include hw henv htrace in
theorem exitedGone_step {process : ProcessSummary} (hprocess : process ∈ (step config w procfs).exited)
    {pid : ℕ} {observed : ObservedProcess}
    (hobserved : (step config w procfs).discovery.observed.get? pid = some observed) :
    observed.processInstanceId ≠ process.processInstanceId := by
  intro hid
  obtain ⟨i, rfl, hinstance, hattributes⟩ := found_of_observed hobserved
  rw [hid] at hattributes
  have hafter := attributed_step.mpr (.inr hattributes)
  rw [exited_step, List.mem_append] at hprocess
  obtain hold | hnew := hprocess
  · have hbefore := attributed_of_used hw henv htrace hafter (hw.exitedUsed process hold)
    obtain ⟨-, old, hget, hold', -⟩ := found_of_attributed hw henv htrace hbefore hinstance
    exact hw.exitedGone process hold i.pid old hget hold'
  · obtain ⟨pid, hlost⟩ := (exits_step hw).2 process hnew
    have hbefore := attributed_of_used hw henv htrace hafter (hlost.used hw)
    exact hlost.not_running hw henv htrace hbefore hinstance

include hw henv htrace in
theorem exitedAfter_step {r : Polled} (hr : r ∈ (step config w procfs).history)
    {process : ProcessSummary} (hprocess : process ∈ exits r.events)
    (hattributed : (step config w procfs).Attributed process.processInstanceId i) :
    r.procfs.instance? i.pid ≠ some i := by
  rw [step, List.mem_append, List.mem_singleton] at hr
  obtain hold | rfl := hr
  · have hused := hw.exitedUsed process (List.mem_flatMap.mpr ⟨r, hold, hprocess⟩)
    exact hw.exitedAfter r hold process hprocess i
      (attributed_of_used hw henv htrace hattributed hused)
  · obtain ⟨pid, hlost⟩ := (exits_step hw).2 process hprocess
    exact hlost.not_running hw henv htrace
      (attributed_of_used hw henv htrace hattributed (hlost.used hw))

include hw henv htrace in
/-- A traceable poll keeps what is kept. -/
theorem kept_step : Kept (step config w procfs) where
  running pid observed h := by
    obtain ⟨i, rfl, hinstance, hattributes⟩ := found_of_observed h
    exact ⟨i, rfl, running_step.mpr hinstance, attributed_step.mpr (.inr hattributes)⟩
  current id i := current_step hw henv htrace
  distinct id i j := distinct_step hw henv htrace
  single id id' i := single_step hw henv htrace
  observedNodup := observedNodup_step hw henv htrace
  observed i := observed_step hw henv htrace
  exitedNodup := by
    rw [exited_step, List.map_append]
    refine List.nodup_append'.mpr ⟨hw.exitedNodup, (exits_step hw).1, ?_⟩
    intro id hold hnew
    obtain ⟨process, hprocess, rfl⟩ := List.mem_map.mp hold
    obtain ⟨process', hprocess', hid⟩ := List.mem_map.mp hnew
    obtain ⟨pid, ⟨observed, hobserved, hsame⟩, -⟩ := (exits_step hw).2 process' hprocess'
    exact hw.exitedGone process hprocess pid observed hobserved (hsame.trans hid)
  exitedUsed process hprocess := by
    have hused : w.Used process.processInstanceId := by
      rw [exited_step, List.mem_append] at hprocess
      obtain hold | hnew := hprocess
      · exact hw.exitedUsed process hold
      · obtain ⟨pid, hlost⟩ := (exits_step hw).2 process hnew
        exact hlost.used hw
    obtain ⟨r, hr, hstored⟩ := hused
    exact ⟨r, List.mem_append_left _ hr, hstored⟩
  exitedGone process hprocess pid observed := exitedGone_step hw henv htrace hprocess
  exitedAfter r hr process hprocess i := exitedAfter_step hw henv htrace hr hprocess

end Step

/-! ## Runs -/

theorem kept_new (hashes : Table String String) : Kept (.new hashes) where
  running pid observed h := nomatch h
  current id i h := by obtain ⟨r, hr, -⟩ := h; cases hr
  distinct id i j h := by obtain ⟨r, hr, -⟩ := h; cases hr
  single id id' i h := by obtain ⟨r, hr, -⟩ := h; cases hr
  observedNodup := List.nodup_nil
  observed i := by simp [World.new, World.observedInstances, World.Attributed]
  exitedNodup := List.nodup_nil
  exitedUsed process h := nomatch h
  exitedGone process h := nomatch h
  exitedAfter r hr := nomatch hr

/-- What a poll can read it observes. -/
theorem attributes_of_readable {config : DiscoveryConfig} (hashes : Table String String)
    (polls : List Procfs) :
    ∀ r ∈ (Run.run (step config) (.new hashes) polls).history, ∀ i, Readable config r.procfs i →
      ∃ id, r.Attributes id i := by
  refine Run.invariant (I := fun w : World => ∀ r ∈ w.history, ∀ i, Readable config r.procfs i →
    ∃ id, r.Attributes id i) ?_ (by simp [World.new]) polls
  intro w procfs hw r hr i hreadable
  rw [step, List.mem_append, List.mem_singleton] at hr
  obtain hold | rfl := hr
  · exact hw r hold i hreadable
  · obtain ⟨path, hpath, hfile⟩ := hreadable.executable
    obtain ⟨⟨observed, isNew⟩, hfound⟩ := Option.isSome_iff_exists.mp
      (isSome_found (d := w.discovery) hpath hfile)
    exact ⟨_, attributes_polled.mpr
      ⟨hreadable.running, hreadable.listed, observed, isNew, hfound, rfl⟩⟩

/-- The reports of traceable polls tell the processes apart. -/
theorem oneToOne_run {config : DiscoveryConfig} {hashes : Table String String} {polls : List Procfs}
    (henv : Run.Each (step config) (Environment config) (.new hashes) polls)
    (htrace : Run.Each (step config) (Traceable config) (.new hashes) polls) :
    OneToOne config (Run.run (step config) (.new hashes) polls) := by
  have hkept : Kept (Run.run (step config) (.new hashes) polls) :=
    Run.invariant_of_each (fun w procfs hw h => kept_step hw h.1 h.2) (kept_new hashes)
      (henv.and htrace)
  refine ⟨?_, ?_, hkept.exitedAfter, hkept.distinct⟩
  · rintro i ⟨r, hr, hreadable⟩
    obtain ⟨id, hattributes⟩ := attributes_of_readable hashes polls r hr i hreadable
    exact List.count_eq_one_of_mem hkept.observedNodup
      ((hkept.observed i).mpr ⟨id, r, hr, hattributes⟩)
  · intro i j k p q hj hk hp hq
    have hid := hkept.single _ _ i hp hq
    obtain ⟨hlt, -⟩ := List.getElem?_eq_some_iff.mp hj
    refine (List.getElem?_inj (by rw [List.length_map]; exact hlt) hkept.exitedNodup).mp ?_
    rw [List.getElem?_map, List.getElem?_map, hj, hk, Option.map_some, Option.map_some, hid]

/-! ## One number -/

def codexConfig : DiscoveryConfig := ⟨.v7 0, none, "codex"⟩

/-- The `n`-th poll finds one process with an executable, and can or cannot read its sockets. -/
def codexAt (n startTime : ℕ) (path : String) (flows : Except String ProcessFlowIndex) : Procfs where
  processes := ⟨[(7, ⟨startTime, true, some "codex\n", some path, flows⟩)], by simp⟩
  files _ := .ok "digest"
  now := n
  nowV7 _ := .v7 (2 * n)
  gapV7 _ := .v7 (2 * n + 1)

/-- The process ends, and its number goes to one with another executable. -/
theorem oneToOne_reused : OneToOne codexConfig (Run.run (step codexConfig) (.new .empty)
    [codexAt 1 10 "/opt/codex-0.1.2" (.ok ⟨7, []⟩),
      codexAt 2 10 "/opt/codex-0.1.2" (.error "Permission denied"),
      codexAt 3 20 "/opt/codex-0.1.3" (.ok ⟨7, []⟩)]) :=
  oneToOne_run (by decide +kernel) (by decide +kernel)

/-- The sockets of the process cannot be read when it is first seen. -/
theorem not_oneToOne_unreadable :
    ¬ ∀ (config : DiscoveryConfig) (hashes : Table String String) (polls : List Procfs),
      Run.Each (step config) (Environment config) (.new hashes) polls →
      OneToOne config (Run.run (step config) (.new hashes) polls) := by
  intro h
  have honeToOne := h codexConfig .empty
    [codexAt 1 10 "/opt/codex-0.1.2" (.error "Permission denied"),
      codexAt 2 10 "/opt/codex-0.1.2" (.ok ⟨7, []⟩)] (by decide +kernel)
  have hreadable : Readable codexConfig (codexAt 2 10 "/opt/codex-0.1.2" (.ok ⟨7, []⟩)) ⟨7, 10⟩ :=
    ⟨by decide +kernel, by decide +kernel, ⟨_, rfl, rfl⟩, rfl⟩
  have hcount := honeToOne.observed ⟨7, 10⟩ ⟨_, List.mem_append_right _ List.mem_cons_self, hreadable⟩
  revert hcount
  decide +kernel

end Codexwatch.Client.Polls
