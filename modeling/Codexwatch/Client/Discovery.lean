import Codexwatch.Client.ProcessIndex

/-!
# Process discovery

`ProcfsProcessDiscovery` of `client/src/capture_lane.rs`. A poll goes through the listed
processes. What it reads of `/proc` is in the `Procfs`, with the start times that tell
processes apart and that the code does not read.

## Main definitions

* `Procfs` — what a poll can read.
* `ProcfsProcessDiscovery.poll` — one poll.
* `Found` — what a poll makes of one process.
* `observed_poll`, `observations_poll`, `exitIds_poll` — what a poll does, process by process.
-/
namespace Codexwatch.Client

open Protocol Relational

/-- The fields of `ClientConfig` that discovery reads. -/
structure DiscoveryConfig where
  clientInstanceId : Uuid
  captureCodexPid : Option ℕ
  captureProcessName : String

/-- A process in `/proc`. What could not be read is missing. -/
structure ProcEntry where
  /-- Not read by the code. -/
  startTime : ℕ
  /-- The directory entry is read. -/
  listed : Bool
  comm : Option String
  /-- The target of the `exe` link. -/
  exe : Option String
  /-- `ProcessFlowIndex::from_pid`, or its error. -/
  flows : Except String ProcessFlowIndex

/-- What a poll can read, its clock and the identifiers that it draws. -/
structure Procfs where
  processes : Table ℕ ProcEntry
  /-- The digest of a file, or the error of reading it. -/
  files : String → Except String String
  now : OffsetDateTime
  /-- The instance identifier for a process that is new. -/
  nowV7 : ℕ → Uuid
  /-- The flow identifier of the gap for a process. -/
  gapV7 : ℕ → Uuid

/-- A process, told apart from others under its number. -/
structure ProcessInstance where
  pid : ℕ
  startTime : ℕ
  deriving DecidableEq

structure ObservedProcess where
  pid : ℕ
  processInstanceId : Uuid
  executableSha256 : String
  codexVersion : Option String
  executablePath : String
  startedAt : OffsetDateTime
  deriving DecidableEq

structure ProcfsProcessDiscovery where
  observed : Table ℕ ObservedProcess
  executableHashes : Table String String
  sharedIndex : SharedProcessIndex

namespace Procfs
variable (procfs : Procfs)

def executablePath (pid : ℕ) : Option String := (procfs.processes.get? pid).bind ProcEntry.exe

def processName (entry : ProcEntry) : Option String := entry.comm.map Text.trim

/-- `discover_pids`. -/
def discoverPids (config : DiscoveryConfig) : List ℕ :=
  match config.captureCodexPid with
  | some pid => [pid]
  | none => (procfs.processes.rows.filter fun row =>
      row.2.listed && (processName row.2 = some config.captureProcessName)).map Prod.fst

def flowIndex (pid : ℕ) : Except String ProcessFlowIndex :=
  match procfs.processes.get? pid with
  | some entry => entry.flows
  | none => .error "No such file or directory"

/-- The process that runs under a number. -/
def instance? (pid : ℕ) : Option ProcessInstance :=
  (procfs.processes.get? pid).map fun entry => ⟨pid, entry.startTime⟩

variable {procfs} in
theorem pid_of_instance? {pid : ℕ} {i : ProcessInstance} (h : procfs.instance? pid = some i) :
    i.pid = pid := by
  obtain ⟨entry, -, rfl⟩ := Option.map_eq_some_iff.mp h
  rfl

theorem nodup_discoverPids (config : DiscoveryConfig) : (procfs.discoverPids config).Nodup := by
  rw [discoverPids]
  split
  · simp
  · exact procfs.processes.nodup.sublist (List.filter_sublist.map _)

end Procfs

/-- `detect_codex_version`: a part of the file name with two dots. -/
def detectCodexVersion (executablePath : String) : Option String :=
  let name := ((executablePath.toList.splitOnP (· = '/')).getLast?).getD []
  if name = ['.', '.'] then none
  else
    ((name.splitOnP fun c => !(c.isAlphanum || c = '.')).find? fun part =>
      2 ≤ part.count '.').map String.ofList

def ObservedProcess.summary (observed : ObservedProcess) (config : DiscoveryConfig)
    (exitedAt : Option OffsetDateTime) : ProcessSummary where
  processInstanceId := observed.processInstanceId
  clientInstanceId := config.clientInstanceId
  pid := observed.pid
  executableSha256 := observed.executableSha256
  codexVersion := observed.codexVersion
  startedAt := observed.startedAt
  exitedAt := exitedAt
  exitCode := none
  signal := none

def ObservedProcess.tracked (observed : ObservedProcess) (config : DiscoveryConfig) :
    TrackedProcess where
  processInstanceId := observed.processInstanceId
  clientInstanceId := config.clientInstanceId
  executableSha256 := observed.executableSha256
  codexVersion := observed.codexVersion
  startedAt := observed.startedAt

namespace ProcfsProcessDiscovery

def gap (procfs : Procfs) (pid : ℕ) (reason : String) : CaptureInput :=
  .captureGap (procfs.gapV7 pid) none procfs.now reason none

/-- The digest of an executable, from the cache or else from the file. -/
def executableHash (procfs : Procfs) (hashes : Table String String) (path : String) :
    Except String (String × Table String String) :=
  match hashes.get? path with
  | some hash => .ok (hash, hashes)
  | none => (procfs.files path).map fun hash => (hash, hashes.put path hash)

/-- The process as it was observed under this number with this executable. -/
def existing (d : ProcfsProcessDiscovery) (pid : ℕ) (path : String) : Option ObservedProcess :=
  (d.observed.get? pid).filter fun observed => observed.executablePath = path

/-- The entry that a process is given when it is new. -/
def newProcess (procfs : Procfs) (pid : ℕ) (path hash : String) : ObservedProcess where
  pid := pid
  processInstanceId := procfs.nowV7 pid
  executableSha256 := hash
  codexVersion := detectCodexVersion path
  executablePath := path
  startedAt := procfs.now

/-- What the loop of `poll` has come to. -/
structure Polling where
  discovery : ProcfsProcessDiscovery
  active : List ℕ
  events : List CaptureInput

/-- A process with its entry: it is active, and its sockets are indexed. -/
def track (config : DiscoveryConfig) (procfs : Procfs) (s : Polling) (pid : ℕ)
    (observed : ObservedProcess) (hashes : Table String String) (isNew : Bool) : Polling :=
  let d := { s.discovery with
    observed := s.discovery.observed.put pid observed
    executableHashes := hashes }
  let active := s.active ++ [pid]
  match procfs.flowIndex pid with
  | .ok index =>
      { discovery := { d with
          sharedIndex := SharedProcessIndex.upsert d.sharedIndex pid observed.processInstanceId
            index (observed.tracked config) }
        active
        events := if isNew then s.events ++ [.processObserved (observed.summary config none)]
          else s.events }
  | .error error =>
      { discovery := d
        active
        events := s.events ++ [gap procfs pid ("attribution_index_unavailable:" ++ error)] }

/-- One round of the loop over the listed processes. -/
def visit (config : DiscoveryConfig) (procfs : Procfs) (s : Polling) (pid : ℕ) : Polling :=
  match procfs.executablePath pid with
  | none =>
      { s with events := s.events ++ [gap procfs pid s!"proc_exe_unavailable:{pid}"] }
  | some path =>
      match s.discovery.existing pid path with
      | some observed => track config procfs s pid observed s.discovery.executableHashes false
      | none =>
          match executableHash procfs s.discovery.executableHashes path with
          | .ok (hash, hashes) =>
              track config procfs s pid (newProcess procfs pid path hash) hashes true
          | .error error =>
              { s with events := s.events ++ [gap procfs pid s!"proc_exe_read_failed:{pid}:{error}"] }

/-- The processes that were not found are taken out. -/
def expire (config : DiscoveryConfig) (procfs : Procfs) (s : Polling) :
    List CaptureInput × ProcfsProcessDiscovery :=
  let stale := s.discovery.observed.rows.filter fun row => row.1 ∉ s.active
  (s.events ++ stale.map fun row => .processExit (row.2.summary config (some procfs.now)),
    { s.discovery with
      observed := s.discovery.observed.deleteWhere fun pid _ => pid ∉ s.active
      sharedIndex := stale.foldl (fun shared row => shared.remove row.1) s.discovery.sharedIndex })

def poll (config : DiscoveryConfig) (procfs : Procfs) (d : ProcfsProcessDiscovery) :
    List CaptureInput × ProcfsProcessDiscovery :=
  expire config procfs ((procfs.discoverPids config).foldl (visit config procfs) ⟨d, [], []⟩)

/-! ## What a poll does with one process -/

/-- The entry that a poll has for a process, and whether it is new. -/
def found (procfs : Procfs) (d : ProcfsProcessDiscovery) (pid : ℕ) :
    Option (ObservedProcess × Bool) :=
  match procfs.executablePath pid with
  | none => none
  | some path =>
      match d.existing pid path with
      | some observed => some (observed, false)
      | none =>
          match (executableHash procfs d.executableHashes path).map Prod.fst with
          | .ok hash => some (newProcess procfs pid path hash, true)
          | .error _ => none

/-- The `ProcessObserved` of a process. -/
def announced (config : DiscoveryConfig) (procfs : Procfs) (d : ProcfsProcessDiscovery) (pid : ℕ) :
    Option ProcessSummary :=
  match found procfs d pid, procfs.flowIndex pid with
  | some (observed, true), .ok _ => some (observed.summary config none)
  | _, _ => none

def observations (events : List CaptureInput) : List ProcessSummary :=
  events.filterMap fun
    | .processObserved process => some process
    | _ => none

def exits (events : List CaptureInput) : List ProcessSummary :=
  events.filterMap fun
    | .processExit process => some process
    | _ => none

section Loop
variable {config : DiscoveryConfig} {procfs : Procfs} {d : ProcfsProcessDiscovery} {s : Polling}
  {pid : ℕ} {path : String}

/-- Reading an executable does not change what the others are found to be. -/
theorem executableHash_put {hashes hashes' : Table String String} {hash : String}
    (h : executableHash procfs hashes path = .ok (hash, hashes')) (other : String) :
    (executableHash procfs hashes' other).map Prod.fst =
      (executableHash procfs hashes other).map Prod.fst := by
  rw [executableHash] at h
  cases hcached : hashes.get? path with
  | some cached =>
      rw [hcached] at h
      cases h
      rfl
  | none =>
      rw [hcached] at h
      cases hfile : procfs.files path with
      | error e =>
          rw [hfile] at h
          cases h
      | ok content =>
          rw [hfile] at h
          cases h
          by_cases hother : other = path
          · subst hother
            rw [executableHash, executableHash, Table.get?_put_self, hcached, hfile]
            rfl
          · rw [executableHash, executableHash, Table.get?_put_of_ne hother]
            cases hashes.get? other with
            | some cached => rfl
            | none => cases procfs.files other <;> rfl

/-- After the rounds for the processes `done`. -/
structure Visited (config : DiscoveryConfig) (procfs : Procfs) (d : ProcfsProcessDiscovery)
    (done : List ℕ) (s : Polling) : Prop where
  observed : ∀ pid, s.discovery.observed.get? pid =
    if pid ∈ done ∧ (found procfs d pid).isSome then (found procfs d pid).map Prod.fst
    else d.observed.get? pid
  active : ∀ pid, pid ∈ s.active ↔ pid ∈ done ∧ (found procfs d pid).isSome
  hashes : ∀ path, (executableHash procfs s.discovery.executableHashes path).map Prod.fst =
    (executableHash procfs d.executableHashes path).map Prod.fst
  observations : observations s.events = done.filterMap (announced config procfs d)
  exits : exits s.events = []

theorem visited_nil : Visited config procfs d [] ⟨d, [], []⟩ where
  observed pid := by simp
  active pid := by simp
  hashes _ := rfl
  observations := rfl
  exits := rfl

theorem existing_eq_some {observed : ObservedProcess} : d.existing pid path = some observed ↔
    d.observed.get? pid = some observed ∧ observed.executablePath = path := by
  rw [existing, Option.filter_eq_some_iff]
  simp

/-- A process that is found again is the one that was observed with its executable. -/
theorem found_eq_again {observed : ObservedProcess} :
    found procfs d pid = some (observed, false) ↔ d.observed.get? pid = some observed ∧
      procfs.executablePath pid = some observed.executablePath := by
  rw [found]
  cases procfs.executablePath pid with
  | none => simp
  | some path =>
      dsimp only
      cases hexisting : d.existing pid path with
      | some old =>
          rw [existing_eq_some] at hexisting
          obtain ⟨hold, rfl⟩ := hexisting
          simp only [Option.some.injEq, Prod.mk.injEq, and_true]
          constructor
          · rintro rfl
            exact ⟨hold, rfl⟩
          · rintro ⟨hobserved, -⟩
            exact Option.some.inj (hold.symm.trans hobserved)
      | none =>
          have hnone : ¬ (d.observed.get? pid = some observed ∧
              some path = some observed.executablePath) := by
            intro ⟨hobserved, hpath⟩
            rw [existing_eq_some.mpr ⟨hobserved, (Option.some.inj hpath).symm⟩] at hexisting
            cases hexisting
          rw [iff_false_right hnone]
          cases (executableHash procfs d.executableHashes path).map Prod.fst <;> simp

/-- A process is new when it was not observed with its executable, which is known or read. -/
theorem found_eq_new {observed : ObservedProcess} (h : found procfs d pid = some (observed, true)) :
    ∃ path hash, procfs.executablePath pid = some path ∧ d.existing pid path = none ∧
      ((d.executableHashes.get? path).isSome ∨ (procfs.files path).isOk) ∧
      observed = newProcess procfs pid path hash := by
  rw [found] at h
  cases hpath : procfs.executablePath pid with
  | none => simp [hpath] at h
  | some path =>
      rw [hpath] at h
      dsimp only at h
      cases hexisting : d.existing pid path with
      | some old => simp [hexisting] at h
      | none =>
          rw [hexisting] at h
          dsimp only at h
          rw [executableHash] at h
          cases hcached : d.executableHashes.get? path with
          | some cached =>
              rw [hcached] at h
              cases h
              exact ⟨path, cached, rfl, hexisting, .inl (by rw [hcached]; rfl), rfl⟩
          | none =>
              rw [hcached] at h
              cases hfile : procfs.files path with
              | error e => simp [hfile, Except.map] at h
              | ok content =>
                  rw [hfile] at h
                  cases h
                  exact ⟨path, content, rfl, hexisting, .inr (by rw [hfile]; rfl), rfl⟩

/-- A report is about the process it is made for. -/
theorem pid_of_announced {process : ProcessSummary}
    (h : announced config procfs d pid = some process) :
    process.pid = pid ∧ ∃ observed, found procfs d pid = some (observed, true) := by
  rw [announced] at h
  split at h
  · rename_i observed _ hfound _
    obtain ⟨path, hash, -, -, -, rfl⟩ := found_eq_new hfound
    obtain rfl := Option.some.inj h
    exact ⟨rfl, _, hfound⟩
  · cases h

theorem isSome_found (hpath : procfs.executablePath pid = some path)
    (hfile : (procfs.files path).isOk = true) : (found procfs d pid).isSome := by
  rw [found, hpath]
  dsimp only
  cases d.existing pid path with
  | some old => rfl
  | none =>
      dsimp only
      rw [executableHash]
      cases d.executableHashes.get? path with
      | some cached => rfl
      | none =>
          cases hread : procfs.files path with
          | error e => simp [hread, Except.isOk, Except.toBool] at hfile
          | ok content => rfl

/-- A round for a process that is not found reports a gap, and tracks the others. -/
theorem visit_cases (config : DiscoveryConfig) (procfs : Procfs) (s : Polling) (pid : ℕ) :
    (found procfs s.discovery pid = none ∧ ∃ reason,
      visit config procfs s pid = { s with events := s.events ++ [gap procfs pid reason] }) ∨
    ∃ observed isNew hashes, found procfs s.discovery pid = some (observed, isNew) ∧
      (∀ path, (executableHash procfs hashes path).map Prod.fst =
        (executableHash procfs s.discovery.executableHashes path).map Prod.fst) ∧
      visit config procfs s pid = track config procfs s pid observed hashes isNew := by
  rw [found, visit]
  cases procfs.executablePath pid with
  | none => exact .inl ⟨rfl, _, rfl⟩
  | some path =>
      dsimp only
      cases s.discovery.existing pid path with
      | some observed => exact .inr ⟨observed, false, _, rfl, fun _ => rfl, rfl⟩
      | none =>
          dsimp only
          cases hhash : executableHash procfs s.discovery.executableHashes path with
          | error error => exact .inl ⟨rfl, _, rfl⟩
          | ok result =>
              obtain ⟨hash, hashes⟩ := result
              exact .inr ⟨_, true, hashes, rfl, executableHash_put hhash, rfl⟩

theorem found_congr {d' : ProcfsProcessDiscovery}
    (hobserved : d'.observed.get? pid = d.observed.get? pid)
    (hhashes : ∀ path, (executableHash procfs d'.executableHashes path).map Prod.fst =
      (executableHash procfs d.executableHashes path).map Prod.fst) :
    found procfs d' pid = found procfs d pid := by
  have hexisting : ∀ path, d'.existing pid path = d.existing pid path := fun path => by
    rw [existing, existing, hobserved]
  simp only [found, hexisting, hhashes]

@[simp] theorem observations_append (events more : List CaptureInput) :
    observations (events ++ more) = observations events ++ observations more :=
  List.filterMap_append ..

@[simp] theorem exits_append (events more : List CaptureInput) :
    exits (events ++ more) = exits events ++ exits more := List.filterMap_append ..

@[simp] theorem observations_gap (reason : String) :
    observations [gap procfs pid reason] = [] := rfl

@[simp] theorem exits_gap (reason : String) : exits [gap procfs pid reason] = [] := rfl

theorem observations_map_exit (rows : List (ℕ × ObservedProcess)) :
    observations (rows.map fun row => .processExit (row.2.summary config (some procfs.now))) = [] := by
  rw [observations, List.filterMap_map]
  exact List.filterMap_eq_nil_iff.mpr fun _ _ => rfl

theorem exits_map_exit (rows : List (ℕ × ObservedProcess)) :
    exits (rows.map fun row => .processExit (row.2.summary config (some procfs.now))) =
      rows.map fun row => row.2.summary config (some procfs.now) := by
  rw [exits, List.filterMap_map, ← List.filterMap_eq_map]
  rfl

/-- What a round reports of a process that is tracked. -/
theorem events_track (config : DiscoveryConfig) (s : Polling) (observed : ObservedProcess)
    (hashes : Table String String) (isNew : Bool)
    (hfound : found procfs d pid = some (observed, isNew)) :
    observations (track config procfs s pid observed hashes isNew).events =
        observations s.events ++ (announced config procfs d pid).toList ∧
      exits (track config procfs s pid observed hashes isNew).events = exits s.events := by
  rw [track, announced, hfound]
  cases procfs.flowIndex pid with
  | error error => cases isNew <;> simp
  | ok index =>
      cases isNew with
      | false => simp
      | true =>
          dsimp only
          rw [if_pos rfl, observations_append, exits_append]
          exact ⟨rfl, List.append_nil _⟩

theorem observed_track (config : DiscoveryConfig) (procfs : Procfs) (s : Polling) (pid : ℕ)
    (observed : ObservedProcess) (hashes : Table String String) (isNew : Bool) :
    (track config procfs s pid observed hashes isNew).discovery.observed =
        s.discovery.observed.put pid observed ∧
      (track config procfs s pid observed hashes isNew).discovery.executableHashes = hashes ∧
      (track config procfs s pid observed hashes isNew).active = s.active ++ [pid] := by
  rw [track]
  cases procfs.flowIndex pid <;> exact ⟨rfl, rfl, rfl⟩

theorem visited_snoc {done : List ℕ} (h : Visited config procfs d done s) (hpid : pid ∉ done) :
    Visited config procfs d (done ++ [pid]) (visit config procfs s pid) := by
  have hsame : found procfs s.discovery pid = found procfs d pid := by
    refine found_congr ?_ h.hashes
    rw [h.observed, if_neg fun hc => hpid hc.1]
  have hmem : ∀ k, k ∈ done ++ [pid] ↔ k ∈ done ∨ k = pid := by simp
  obtain ⟨hnone, reason, hvisit⟩ | ⟨observed, isNew, hashes, hfound, hhashes, hvisit⟩ :=
    visit_cases config procfs s pid
  · rw [hsame] at hnone
    have hannounced : announced config procfs d pid = none := by rw [announced, hnone]
    have hiff : ∀ k, k ∈ done ++ [pid] ∧ (found procfs d k).isSome ↔
        k ∈ done ∧ (found procfs d k).isSome := by
      intro k
      rw [hmem]
      constructor
      · rintro ⟨hk | rfl, hsome⟩
        · exact ⟨hk, hsome⟩
        · simp [hnone] at hsome
      · exact fun hk => ⟨.inl hk.1, hk.2⟩
    rw [hvisit]
    refine ⟨?_, ?_, h.hashes, ?_, ?_⟩
    · intro k
      simp only [hiff]
      exact h.observed k
    · intro k
      rw [hiff]
      exact h.active k
    · rw [observations_append, observations_gap, List.append_nil, h.observations,
        List.filterMap_append]
      simp [hannounced]
    · rw [exits_append, exits_gap, List.append_nil, h.exits]
  · rw [hsame] at hfound
    obtain ⟨hobserved, hhashes', hactive⟩ :=
      observed_track config procfs s pid observed hashes isNew
    obtain ⟨hobservations, hexits⟩ := events_track config s observed hashes isNew hfound
    rw [hvisit]
    refine ⟨?_, ?_, ?_, ?_, ?_⟩
    · intro k
      rw [hobserved, Table.get?_put]
      by_cases hk : k = pid
      · subst hk
        rw [if_pos rfl, if_pos ⟨(hmem k).mpr (.inr rfl), by rw [hfound]; rfl⟩, hfound]
        rfl
      · have hiff : k ∈ done ++ [pid] ↔ k ∈ done := by simp [hk]
        rw [if_neg hk, h.observed]
        simp only [hiff]
    · intro k
      rw [hactive, List.mem_append, List.mem_singleton, h.active, hmem]
      constructor
      · rintro (⟨hk, hsome⟩ | rfl)
        · exact ⟨.inl hk, hsome⟩
        · exact ⟨.inr rfl, by rw [hfound]; rfl⟩
      · rintro ⟨hk | rfl, hsome⟩
        · exact .inl ⟨hk, hsome⟩
        · exact .inr rfl
    · intro path
      rw [hhashes', hhashes, h.hashes]
    · rw [hobservations, h.observations, List.filterMap_append]
      cases hannounced : announced config procfs d pid <;> simp [hannounced]
    · rw [hexits, h.exits]

theorem visited_foldl {pids done : List ℕ} (h : Visited config procfs d done s)
    (hnodup : (done ++ pids).Nodup) :
    Visited config procfs d (done ++ pids) (pids.foldl (visit config procfs) s) := by
  induction pids generalizing done s with
  | nil => simpa using h
  | cons pid pids ih =>
      have hpid : pid ∉ done := by
        intro hmem
        exact (List.nodup_append'.mp hnodup).2.2 hmem List.mem_cons_self
      have hnext := ih (visited_snoc h hpid) (by simpa using hnodup)
      simpa using hnext

end Loop

/-! ## One poll -/

section Poll
variable (config : DiscoveryConfig) (procfs : Procfs) (d : ProcfsProcessDiscovery)

/-- The loop of a poll visits all pids that are listed. -/
theorem visited_discoverPids : Visited config procfs d (procfs.discoverPids config)
    ((procfs.discoverPids config).foldl (visit config procfs) ⟨d, [], []⟩) := by
  have hnodup : ([] ++ procfs.discoverPids config).Nodup := procfs.nodup_discoverPids config
  simpa using visited_foldl visited_nil hnodup

/-- After a poll, the processes that it found are observed. -/
theorem observed_poll (pid : ℕ) : (poll config procfs d).2.observed.get? pid =
    if pid ∈ procfs.discoverPids config then (found procfs d pid).map Prod.fst else none := by
  have h := visited_discoverPids config procfs d
  rw [poll, expire]
  dsimp only
  rw [Table.get?_deleteWhere, h.observed]
  by_cases hactive : pid ∈ procfs.discoverPids config ∧ (found procfs d pid).isSome
  · rw [if_pos hactive, if_pos hactive.1]
    obtain ⟨entry, hentry⟩ := Option.isSome_iff_exists.mp hactive.2
    simp [hentry, (h.active pid).mpr hactive]
  · rw [if_neg hactive]
    have hnot : pid ∉ ((procfs.discoverPids config).foldl (visit config procfs) ⟨d, [], []⟩).active :=
      fun hmem => hactive ((h.active pid).mp hmem)
    split
    · rename_i hlisted
      have hnone : found procfs d pid = none := by
        rw [← Option.not_isSome_iff_eq_none]
        exact fun hsome => hactive ⟨hlisted, hsome⟩
      cases d.observed.get? pid <;> simp [hnone, hnot]
    · cases d.observed.get? pid <;> simp [hnot]

/-- The reports of a poll are those of the processes that are new. -/
theorem observations_poll : observations (poll config procfs d).1 =
    (procfs.discoverPids config).filterMap (announced config procfs d) := by
  have h := visited_discoverPids config procfs d
  rw [poll, expire]
  dsimp only
  rw [observations_append, h.observations, observations_map_exit, List.append_nil]

/-- What a poll does not find again has ended, each process once. -/
theorem exits_poll : ∃ rows : List (ℕ × ObservedProcess),
    exits (poll config procfs d).1 =
      rows.map (fun row => row.2.summary config (some procfs.now)) ∧
    (rows.map Prod.fst).Nodup ∧
    ∀ row, row ∈ rows ↔ d.observed.get? row.1 = some row.2 ∧
      (poll config procfs d).2.observed.get? row.1 = none := by
  have h := visited_discoverPids config procfs d
  refine ⟨((procfs.discoverPids config).foldl (visit config procfs)
    ⟨d, [], []⟩).discovery.observed.rows.filter fun row => row.1 ∉
      ((procfs.discoverPids config).foldl (visit config procfs) ⟨d, [], []⟩).active, ?_, ?_, ?_⟩
  · rw [poll, expire]
    dsimp only
    rw [exits_append, h.exits, exits_map_exit, List.nil_append]
  · exact (Table.nodup _).sublist (List.filter_sublist.map _)
  · intro row
    rw [List.mem_filter, Table.mem_rows_iff, h.observed, decide_eq_true_iff, h.active,
      observed_poll]
    by_cases hfound : row.1 ∈ procfs.discoverPids config ∧ (found procfs d row.1).isSome
    · obtain ⟨entry, hentry⟩ := Option.isSome_iff_exists.mp hfound.2
      simp [hfound, hentry]
    · rw [if_neg hfound]
      have hgone : (if row.1 ∈ procfs.discoverPids config then (found procfs d row.1).map Prod.fst
          else none) = none := by
        split
        · rename_i hlisted
          rw [Option.map_eq_none_iff, ← Option.not_isSome_iff_eq_none]
          exact fun hsome => hfound ⟨hlisted, hsome⟩
        · rfl
      simp [hfound, hgone]

end Poll

end ProcfsProcessDiscovery

end Codexwatch.Client
