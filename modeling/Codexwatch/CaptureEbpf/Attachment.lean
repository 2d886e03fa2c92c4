import Codexwatch.CaptureEbpf.Loader
import Codexwatch.Profile.Attach

/-!
# Attaching the probes

`CaptureLoader::load` of `capture-ebpf/src/loader.rs` and the registry of `profile.rs`. The
files and the kernel are a parameter, and whatever is asked of them may fail. The uprobes are
attached for a verified profile only, at the sites of its plan, and the image they are resolved
against has the digest of the one that chose the profile. For every other build the kernel hooks
are attached, and the first event says that the build is unsupported.

## Main definitions

* `ProfileRegistry.resolve`, `CaptureLoader.load`, `RunningCapture.nextEvent`.
* `Verified`, `Unsupported` — the two ways in which a capture may run.
* `hooksFor` — the kernel hooks of a build.

## Main results

* `load_failsClosed`.
-/
namespace Codexwatch.CaptureEbpf

open Protocol Profile Check

structure BuildFingerprint where
  executableSha256 : String
  architecture : String
  codexVersionHint : Option String
  deriving DecidableEq

/-- A profile with the field that only the registry reads. -/
structure RegisteredProfile where
  profile : ProbeProfile
  architecture : String

structure LoadedProfile where
  profile : ProbeProfile
  verified : Bool

inductive AttachmentDecision
  | attach (profile : LoadedProfile)
  | unsupportedBuild (fingerprint : BuildFingerprint)

structure ProfileRegistry where
  profiles : List RegisteredProfile

def RegisteredProfile.isFor (registered : RegisteredProfile) (fingerprint : BuildFingerprint) :
    Bool :=
  registered.profile.elfSha256 = fingerprint.executableSha256 &&
    registered.architecture = fingerprint.architecture

def ProfileRegistry.resolve (registry : ProfileRegistry) (fingerprint : BuildFingerprint) :
    AttachmentDecision :=
  match registry.profiles.find? fun registered => registered.isFor fingerprint with
  | none => .unsupportedBuild fingerprint
  | some registered => .attach ⟨registered.profile, registered.profile.validated⟩

inductive LoaderEvent
  | capture (record : OwnedCaptureRecord)
  | unsupportedBuild (fingerprint : BuildFingerprint)
  deriving DecidableEq

/-! ## The kernel -/

/-- What a program is attached to. -/
inductive Attachment
  | tracepoint (program category name : String)
  | kprobe (program target : String)
  | uprobe (program : String) (fileOffset : UInt64)
  deriving DecidableEq

def Attachment.isUprobe : Attachment → Bool
  | .uprobe _ _ => true
  | _ => false

/-- The files and the kernel, as one call of `load` finds them; an error is what `{error}`
prints. What the kernel does with a program may depend on what is attached already. -/
structure Host where
  readBinary : Except String Bytes
  loadFile : Except String Unit
  seedBootId : Except String Unit
  takeEvents : Except String Unit
  /-- `program_mut(..)`, `try_into()` and `load()` -/
  load : List Attachment → String → Except String Unit
  attach : List Attachment → Attachment → Except String Unit
  /-- The second `fs::read`. -/
  rereadBinary : Except String Bytes

def BUILTIN_HOOKS : List KernelHook :=
  [⟨"process_exec", .tracepoint, "sched", some "sched_process_exec"⟩,
    ⟨"process_exit", .tracepoint, "sched", some "sched_process_exit"⟩,
    ⟨"tcp_state", .kprobe, "tcp_set_state", none⟩]

section Attaching
variable (host : Host)

def attachTo (attached : List Attachment) (a : Attachment) : Except String (List Attachment) :=
  (host.attach attached a).map fun _ => attached ++ [a]

def attachKernelHook (attached : List Attachment) (hook : KernelHook) :
    Except String (List Attachment) :=
  match hook.attachKind with
  | .tracepoint => do
      host.load attached hook.program
      let name ← required hook.targetDetail "tracepoint target_detail missing"
      attachTo host attached (.tracepoint hook.program hook.target name)
  | .kprobe => do
      host.load attached hook.program
      attachTo host attached (.kprobe hook.program hook.target)
  | _ => .error ("unsupported attach kind for site " ++ hook.program)

/-- A profile without hooks gets the built-in ones. -/
def hooksOrBuiltin (hooks : List KernelHook) : List KernelHook :=
  if hooks = [] then BUILTIN_HOOKS else hooks

def attachKernelHooks (hooks : List KernelHook) : Except String (List Attachment) :=
  (hooksOrBuiltin hooks).foldlM (attachKernelHook host) []

def attachUprobe (attached : List Attachment) (probe : String × ProbeDefinition) :
    Except String (List Attachment) := do
  host.load attached probe.2.program
  attachTo host attached (.uprobe probe.2.program probe.2.fileOffset)

def attachUprobes (attached : List Attachment) (plan : AttachPlan) :
    Except String (List Attachment) :=
  plan.probes.foldlM (attachUprobe host) attached

end Attaching

/-! ## Loading -/

/-- The fields that are read; `attached` is what the kernel does for it. -/
structure RunningCapture where
  attachedProfile : Option LoadedProfile
  pendingEvent : Option LoaderEvent
  attached : List Attachment

/-- `attached_profile.is_some_and(|profile| profile.verified)` -/
def RunningCapture.isVerified (running : RunningCapture) : Bool :=
  running.attachedProfile.any LoadedProfile.verified

section Load
variable (registry : ProfileRegistry) (arch : String) (sha256 : Bytes → Bytes)

def fingerprintOf (bytes : Bytes) : BuildFingerprint := ⟨hexSha256 sha256 bytes, arch, none⟩

def CaptureLoader.load (host : Host) : Except String RunningCapture := do
  let bytes ← host.readBinary
  let fingerprint := fingerprintOf arch sha256 bytes
  host.loadFile
  host.seedBootId
  host.takeEvents
  match registry.resolve fingerprint with
  | .unsupportedBuild fingerprint => do
      let attached ← attachKernelHooks host []
      pure ⟨none, some (.unsupportedBuild fingerprint), attached⟩
  | .attach profile => do
      let attached ← attachKernelHooks host profile.profile.kernelHooks
      if profile.verified then
        let elfBytes ← host.rereadBinary
        let plan ← (resolveAttachPlan sha256 elfBytes profile.profile).mapError
          fun _ => "unsupported_codex_build"
        let attached ← attachUprobes host attached plan
        pure ⟨some profile, none, attached⟩
      else
        pure ⟨some profile, some (.unsupportedBuild fingerprint), attached⟩

end Load

/-- `next_event`; an event of the ring buffer that cannot be decoded is none. -/
def RunningCapture.nextEvent (running : RunningCapture) (item : Option (List UInt8)) :
    Option LoaderEvent × RunningCapture :=
  match running.pendingEvent with
  | some event => (some event, { running with pendingEvent := none })
  | none => ((item.bind decodeCaptureRecord).map .capture, running)

/-! ## What is attached -/

section Attached
variable {host : Host} {attached out : List Attachment}

/-- What a hook is attached to. -/
def attachmentOf (hook : KernelHook) : Option Attachment :=
  match hook.attachKind, hook.targetDetail with
  | .tracepoint, some name => some (.tracepoint hook.program hook.target name)
  | .kprobe, _ => some (.kprobe hook.program hook.target)
  | _, _ => none

def uprobeOf (probe : String × ProbeDefinition) : Attachment :=
  .uprobe probe.2.program probe.2.fileOffset

theorem attachTo_eq_ok {a : Attachment} (h : attachTo host attached a = .ok out) :
    out = attached ++ [a] := by
  rcases map_eq_ok.mp h with ⟨_, -, rfl⟩
  rfl

theorem attachKernelHook_eq_ok {hook : KernelHook}
    (h : attachKernelHook host attached hook = .ok out) :
    ∃ a, attachmentOf hook = some a ∧ out = attached ++ [a] := by
  rw [attachKernelHook] at h
  cases hkind : hook.attachKind with
  | tracepoint =>
      simp only [hkind, bind_eq_ok, exists_unit_and, required_eq_ok] at h
      rcases h with ⟨-, name, hname, h⟩
      exact ⟨_, by simp only [attachmentOf, hkind, hname], attachTo_eq_ok h⟩
  | kprobe =>
      simp only [hkind, bind_eq_ok, exists_unit_and] at h
      exact ⟨_, by simp only [attachmentOf, hkind], attachTo_eq_ok h.2⟩
  | _ => simp [hkind] at h

/-- Hooks that are attached are all attached, in order. -/
theorem attachHooks_eq_ok {hooks : List KernelHook}
    (h : hooks.foldlM (attachKernelHook host) attached = .ok out) :
    out = attached ++ hooks.filterMap attachmentOf := by
  induction hooks generalizing attached with
  | nil =>
      rw [List.foldlM_nil, pure_eq_ok] at h
      simp [h]
  | cons hook hooks ih =>
      rw [List.foldlM_cons, bind_eq_ok] at h
      rcases h with ⟨middle, hfirst, hrest⟩
      rcases attachKernelHook_eq_ok hfirst with ⟨a, ha, rfl⟩
      simp [ih hrest, ha]

theorem map_some_filterMap {hooks : List KernelHook}
    (h : ∀ hook ∈ hooks, attachmentOf hook ≠ none) :
    (hooks.filterMap attachmentOf).map some = hooks.map attachmentOf := by
  induction hooks with
  | nil => rfl
  | cons hook hooks ih =>
      rw [List.forall_mem_cons] at h
      obtain ⟨a, ha⟩ := Option.ne_none_iff_exists'.mp h.1
      rw [List.filterMap_cons_some ha, List.map_cons, List.map_cons, ih h.2, ha]

/-- Only hooks that can be attached get through. -/
theorem attachable_of_attachHooks {hooks : List KernelHook}
    (h : hooks.foldlM (attachKernelHook host) attached = .ok out) :
    ∀ hook ∈ hooks, attachmentOf hook ≠ none := by
  induction hooks generalizing attached with
  | nil => simp
  | cons hook hooks ih =>
      rw [List.foldlM_cons, bind_eq_ok] at h
      rcases h with ⟨middle, hfirst, hrest⟩
      rcases attachKernelHook_eq_ok hfirst with ⟨a, ha, -⟩
      rw [List.forall_mem_cons]
      exact ⟨by simp [ha], ih hrest⟩

theorem attachUprobes_eq_ok {plan : AttachPlan} (h : attachUprobes host attached plan = .ok out) :
    out = attached ++ plan.probes.map uprobeOf := by
  rw [attachUprobes] at h
  generalize plan.probes = probes at h ⊢
  induction probes generalizing attached with
  | nil =>
      rw [List.foldlM_nil, pure_eq_ok] at h
      simp [h]
  | cons probe probes ih =>
      rw [List.foldlM_cons, bind_eq_ok] at h
      rcases h with ⟨middle, hfirst, hrest⟩
      simp only [attachUprobe, bind_eq_ok, exists_unit_and] at hfirst
      rw [ih hrest, attachTo_eq_ok hfirst.2]
      simp [uprobeOf]

theorem not_uprobe_of_attachmentOf {hook : KernelHook} {a : Attachment}
    (h : attachmentOf hook = some a) : a.isUprobe = false := by
  rw [attachmentOf] at h
  split at h
  · cases h
    rfl
  · cases h
    rfl
  · cases h

theorem filter_isUprobe_hooks (hooks : List KernelHook) :
    (hooks.filterMap attachmentOf).filter Attachment.isUprobe = [] := by
  rw [List.filter_eq_nil_iff]
  intro a ha
  rcases List.mem_filterMap.mp ha with ⟨hook, -, hhook⟩
  simp [not_uprobe_of_attachmentOf hhook]

theorem filter_not_isUprobe_hooks (hooks : List KernelHook) :
    (hooks.filterMap attachmentOf).filter (fun a => !a.isUprobe) =
      hooks.filterMap attachmentOf := by
  rw [List.filter_eq_self]
  intro a ha
  rcases List.mem_filterMap.mp ha with ⟨hook, -, hhook⟩
  simp [not_uprobe_of_attachmentOf hhook]

end Attached

/-! ## Two ways to run -/

section Ways
variable (registry : ProfileRegistry) (arch : String) (sha256 : Bytes → Bytes)

/-- A capture with the probes of a validated profile, which is the one for the binary that was
read first. The image that was read then has its digest and every signature. -/
structure Verified (host : Host) (registered : RegisteredProfile) (running : RunningCapture) :
    Prop where
  known : registered ∈ registry.profiles
  validated : registered.profile.validated = true
  profile : running.attachedProfile = some ⟨registered.profile, true⟩
  architecture : registered.architecture = arch
  binary : ∃ bytes, host.readBinary = .ok bytes ∧
    hexSha256 sha256 bytes = registered.profile.elfSha256
  image : ∃ elfBytes, host.rereadBinary = .ok elfBytes ∧
    hexSha256 sha256 elfBytes = registered.profile.elfSha256 ∧
    ∀ site ∈ registered.profile.sites, Accepted elfBytes site.2
  uprobes : running.attached.filter Attachment.isUprobe = registered.profile.sites.map uprobeOf
  quiet : running.pendingEvent = none

/-- A capture of a build that is not supported, which it says first. -/
structure Unsupported (host : Host) (running : RunningCapture) : Prop where
  unverified : running.isVerified = false
  uprobes : running.attached.filter Attachment.isUprobe = []
  announced : ∃ bytes, host.readBinary = .ok bytes ∧
    running.pendingEvent = some (.unsupportedBuild (fingerprintOf arch sha256 bytes)) ∧
    ∀ registered, registry.profiles.find? (fun r => r.isFor (fingerprintOf arch sha256 bytes)) =
      some registered → registered.profile.validated = false

variable {registry arch sha256}

/-- Everything that `load` can do. -/
theorem load_cases {host : Host} {running : RunningCapture}
    (h : CaptureLoader.load registry arch sha256 host = .ok running) :
    ∃ bytes, host.readBinary = .ok bytes ∧
      ((registry.profiles.find? (fun r => r.isFor (fingerprintOf arch sha256 bytes)) = none ∧
          running = ⟨none, some (.unsupportedBuild (fingerprintOf arch sha256 bytes)),
            (hooksOrBuiltin []).filterMap attachmentOf⟩) ∨
        ∃ registered, registry.profiles.find?
            (fun r => r.isFor (fingerprintOf arch sha256 bytes)) = some registered ∧
          ((registered.profile.validated = false ∧
              running = ⟨some ⟨registered.profile, false⟩,
                some (.unsupportedBuild (fingerprintOf arch sha256 bytes)),
                (hooksOrBuiltin registered.profile.kernelHooks).filterMap attachmentOf⟩) ∨
            (registered.profile.validated = true ∧ (∃ elfBytes, host.rereadBinary = .ok elfBytes ∧
                hexSha256 sha256 elfBytes = registered.profile.elfSha256 ∧
                ∀ site ∈ registered.profile.sites, Accepted elfBytes site.2) ∧
              running = ⟨some ⟨registered.profile, true⟩, none,
                (hooksOrBuiltin registered.profile.kernelHooks).filterMap attachmentOf ++
                  registered.profile.sites.map uprobeOf⟩))) := by
  simp only [CaptureLoader.load, bind_eq_ok, exists_unit_and] at h
  rcases h with ⟨bytes, hbytes, -, -, -, h⟩
  refine ⟨bytes, hbytes, ?_⟩
  cases hfind : registry.profiles.find? fun r => r.isFor (fingerprintOf arch sha256 bytes) with
  | none =>
      simp only [ProfileRegistry.resolve, hfind, bind_eq_ok, pure_eq_ok] at h
      rcases h with ⟨attached, hattached, rfl⟩
      have hhooks := attachHooks_eq_ok hattached
      rw [List.nil_append] at hhooks
      exact .inl ⟨rfl, by rw [hhooks]⟩
  | some registered =>
      simp only [ProfileRegistry.resolve, hfind, bind_eq_ok] at h
      rcases h with ⟨attached, hattached, h⟩
      have hhooks := attachHooks_eq_ok hattached
      rw [List.nil_append] at hhooks
      refine .inr ⟨registered, rfl, ?_⟩
      cases hvalidated : registered.profile.validated with
      | false =>
          simp only [hvalidated, Bool.false_eq_true, if_false, pure_eq_ok] at h
          exact .inl ⟨rfl, by rw [← h, hhooks]⟩
      | true =>
          simp only [hvalidated, if_true, bind_eq_ok, mapError_eq_ok, pure_eq_ok] at h
          rcases h with ⟨elfBytes, himage, plan, hplan, attached, hattached, rfl⟩
          rcases resolveAttachPlan_eq_ok_iff.mp hplan with ⟨⟨-, hhash, hsites⟩, rfl⟩
          refine .inr ⟨rfl, ⟨elfBytes, himage, hhash, hsites⟩, ?_⟩
          rw [attachUprobes_eq_ok hattached, hhooks]

theorem load_ways {host : Host} {running : RunningCapture}
    (h : CaptureLoader.load registry arch sha256 host = .ok running) :
    (∃ registered, Verified registry arch sha256 host registered running) ∨
      Unsupported registry arch sha256 host running := by
  rcases load_cases h with ⟨bytes, hbytes, ⟨hfind, rfl⟩ | ⟨registered, hfind, hway⟩⟩
  · refine .inr ⟨rfl, filter_isUprobe_hooks _, bytes, hbytes, rfl, ?_⟩
    simp [hfind]
  · rcases hway with ⟨hvalidated, rfl⟩ | ⟨hvalidated, himage, rfl⟩
    · refine .inr ⟨rfl, filter_isUprobe_hooks _, bytes, hbytes, rfl, ?_⟩
      simp [hfind, hvalidated]
    · have hisFor := List.find?_some hfind
      simp only [RegisteredProfile.isFor, Bool.and_eq_true, decide_eq_true_iff] at hisFor
      have hprobes : (registered.profile.sites.map uprobeOf).filter Attachment.isUprobe =
          registered.profile.sites.map uprobeOf := by
        rw [List.filter_eq_self, List.forall_mem_map]
        exact fun _ _ => rfl
      exact .inl ⟨registered, {
        known := List.mem_of_find?_eq_some hfind
        validated := hvalidated
        profile := rfl
        architecture := hisFor.2
        binary := ⟨bytes, hbytes, hisFor.1.symm⟩
        image := himage
        uprobes := by rw [List.filter_append, filter_isUprobe_hooks, hprobes, List.nil_append]
        quiet := rfl }⟩

/-- The hooks of the profile that the registry has for the image, or the built-in ones. -/
def hooksFor (registry : ProfileRegistry) (arch : String) (sha256 : Bytes → Bytes)
    (bytes : Bytes) : List KernelHook :=
  hooksOrBuiltin
    ((registry.profiles.find? fun r => r.isFor (fingerprintOf arch sha256 bytes)).elim []
      fun registered => registered.profile.kernelHooks)

/-- Just these hooks are attached, each of them, in order. -/
def Hooked (registry : ProfileRegistry) (arch : String) (sha256 : Bytes → Bytes) (host : Host)
    (running : RunningCapture) : Prop :=
  ∃ bytes, host.readBinary = .ok bytes ∧
    (running.attached.filter fun a => !a.isUprobe).map some =
      (hooksFor registry arch sha256 bytes).map attachmentOf

theorem attachable_of_load {host : Host} {running : RunningCapture} {bytes : Bytes}
    (h : CaptureLoader.load registry arch sha256 host = .ok running)
    (hbytes : host.readBinary = .ok bytes) :
    ∀ hook ∈ hooksFor registry arch sha256 bytes, attachmentOf hook ≠ none := by
  simp only [CaptureLoader.load, bind_eq_ok, exists_unit_and] at h
  rcases h with ⟨read, hread, -, -, -, h⟩
  obtain rfl : bytes = read := Except.ok.inj (hbytes.symm.trans hread)
  rw [hooksFor]
  cases hfind : registry.profiles.find? fun r => r.isFor (fingerprintOf arch sha256 bytes) with
  | none =>
      simp only [ProfileRegistry.resolve, hfind, bind_eq_ok] at h
      rcases h with ⟨attached, hattached, -⟩
      exact attachable_of_attachHooks hattached
  | some registered =>
      simp only [ProfileRegistry.resolve, hfind, bind_eq_ok] at h
      rcases h with ⟨attached, hattached, -⟩
      exact attachable_of_attachHooks hattached

theorem hooked_of_load {host : Host} {running : RunningCapture}
    (h : CaptureLoader.load registry arch sha256 host = .ok running) :
    Hooked registry arch sha256 host running := by
  rcases load_cases h with ⟨bytes, hbytes, hways⟩
  have hattachable := map_some_filterMap (attachable_of_load h hbytes)
  refine ⟨bytes, hbytes, ?_⟩
  rw [← hattachable, hooksFor]
  rcases hways with ⟨hfind, rfl⟩ | ⟨registered, hfind, ⟨-, rfl⟩ | ⟨-, -, rfl⟩⟩
  · rw [hfind, Option.elim_none, filter_not_isUprobe_hooks]
  · rw [hfind, Option.elim_some, filter_not_isUprobe_hooks]
  · have hothers : (registered.profile.sites.map uprobeOf).filter (fun a => !a.isUprobe) =
        [] := by
      rw [List.filter_eq_nil_iff, List.forall_mem_map]
      intro _ _
      simp [uprobeOf, Attachment.isUprobe]
    rw [hfind, Option.elim_some, List.filter_append, filter_not_isUprobe_hooks, hothers,
      List.append_nil]

/-- Whatever the host does, a capture that is loaded has the hooks of its build, and the uprobes
of a verified profile, or none. -/
theorem load_failsClosed {host : Host} {running : RunningCapture}
    (h : CaptureLoader.load registry arch sha256 host = .ok running) :
    Hooked registry arch sha256 host running ∧
    ((∃ registered, Verified registry arch sha256 host registered running) ∨
      Unsupported registry arch sha256 host running) :=
  ⟨hooked_of_load h, load_ways h⟩

end Ways

def sampleRegistry : ProfileRegistry := ⟨[⟨sampleProfile "90cccc" "ffffff", "x86_64"⟩]⟩

/-- A kernel that refuses nothing. -/
def sampleHost : Host where
  readBinary := .ok sampleImage
  loadFile := .ok ()
  seedBootId := .ok ()
  takeEvents := .ok ()
  load := fun _ _ => .ok ()
  attach := fun _ _ => .ok ()
  rereadBinary := .ok sampleImage

def sampleCapture : RunningCapture where
  attachedProfile := some ⟨sampleProfile "90cccc" "ffffff", true⟩
  pendingEvent := none
  attached := BUILTIN_HOOKS.filterMap attachmentOf ++ [.uprobe "plaintext_write_enter" 1]

theorem load_sampleHost :
    CaptureLoader.load sampleRegistry "x86_64" sampleDigest sampleHost = .ok sampleCapture := by
  have hfind : sampleRegistry.profiles.find? (fun r => r.isFor (fingerprintOf "x86_64" sampleDigest
      sampleImage)) = some ⟨sampleProfile "90cccc" "ffffff", "x86_64"⟩ := by
    have hfor : RegisteredProfile.isFor ⟨sampleProfile "90cccc" "ffffff", "x86_64"⟩
        (fingerprintOf "x86_64" sampleDigest sampleImage) = true := by decide +kernel
    simp [sampleRegistry, hfor]
  have hplan : resolveAttachPlan sampleDigest sampleImage (sampleProfile "90cccc" "ffffff") =
      .ok (samplePlan "90cccc" "ffffff") := by decide +kernel
  simp only [CaptureLoader.load, bind_eq_ok, exists_unit_and]
  refine ⟨sampleImage, rfl, rfl, rfl, rfl, ?_⟩
  simp only [ProfileRegistry.resolve, hfind, bind_eq_ok]
  refine ⟨BUILTIN_HOOKS.filterMap attachmentOf, rfl, ?_⟩
  have himage : sampleHost.rereadBinary = .ok sampleImage := rfl
  simp only [sampleProfile, if_true, bind_eq_ok, himage] at hplan ⊢
  exact ⟨sampleImage, rfl, _, by rw [hplan]; rfl, _, rfl, rfl⟩

theorem load_failsClosed_sampleHost :
    Hooked sampleRegistry "x86_64" sampleDigest sampleHost sampleCapture ∧
    ((∃ registered, Verified sampleRegistry "x86_64" sampleDigest sampleHost registered
        sampleCapture) ∨
      Unsupported sampleRegistry "x86_64" sampleDigest sampleHost sampleCapture) :=
  load_failsClosed load_sampleHost

end Codexwatch.CaptureEbpf
