import Codexwatch.Client.Retrieval

/-!
# Pinned uploads

`prepare_upload` pins the objects of its task, and `cleanup` spares what is pinned. An
object has one pin: a command for the same task takes it over and may let go of it
first, and content that is stored again comes without it.

## Main definitions

* `Uploads` — the store, and the objects of the uploads that are not over.
* `Protected` — no cleanup takes one of these.
* `Careful` — no pin of an upload is lost.
* `protected_run_iff` — which runs protect their uploads.
-/
namespace Codexwatch.Client

open Protocol Relational Check

/-- The store, and each object of a manifest that `prepare_upload` has answered, with its
command, until the command is over. -/
structure Uploads where
  history : History
  active : List (Uuid × String)

namespace Uploads

def empty : Uploads := ⟨.empty, []⟩

def contents (u : Uploads) : Contents := u.history.store.contents

/-- A command that is completed, or failed without `keep_pinned`, is over. -/
def activeAfter (u : Uploads) : StoreOp → List (Uuid × String)
  | .prepareUpload command now =>
      match (prepareUpload u.contents command (ts now)).1 with
      | .ready work => u.active ++ work.manifests.map fun m => (work.commandId, m.objectSha256)
      | .expired _ _ => u.active
  | .completeCommand commandId _ _ _ => u.active.filter fun a => a.1 ≠ commandId
  | .failCommand commandId _ keepPinned _ =>
      if keepPinned ∨ u.contents.commands.get? commandId = none then u.active
      else u.active.filter fun a => a.1 ≠ commandId
  | _ => u.active

def step (client : ClientInstance) (codec : Codec) (u : Uploads) (op : StoreOp) : Uploads :=
  ⟨u.history.step client codec op, u.activeAfter op⟩

/-- The objects have their rows and files after a cleanup at any time. -/
def Protected (u : Uploads) : Prop :=
  ∀ now, ∀ a ∈ u.active, ((cleanup u.contents now).rawObjects.get? a.2).isSome ∧
    ((cleanup u.contents now).files.get? a.2).isSome

/-- The command holds the pin of no object of another upload. -/
def ReleasesOwn (u : Uploads) (commandId : Uuid) : Prop :=
  ∀ a ∈ u.active, a.1 ≠ commandId → ∀ row, u.contents.rawObjects.get? a.2 = some row →
    row.pinnedByCommandId ≠ some commandId

/-- What is stored is no object of an upload, and a command that lets go of its pins has taken
over none. -/
def Careful (client : ClientInstance) (codec : Codec) (u : Uploads) : StoreOp → Prop
  | .persistIngress t records contents =>
      (persistIngress client codec t u.history.store records contents).1.isSome →
        ∀ input ∈ contents, ∀ a ∈ u.active, a.2 ≠ codec.sha256Hex input.body
  | .completeCommand commandId _ keepPinned _ => keepPinned = false → u.ReleasesOwn commandId
  | .failCommand commandId _ keepPinned _ =>
      keepPinned = false → u.contents.commands.get? commandId ≠ none → u.ReleasesOwn commandId
  | _ => True

end Uploads

/-! ## Cleaning up -/

section Cleanup
variable {c : Contents} {now : OffsetDateTime} {sha : String}

theorem get?_foldl_remove (shas : List String) (files : BlobStore) :
    (shas.foldl BlobStore.remove files).get? sha =
      if sha ∈ shas then none else files.get? sha := by
  induction shas generalizing files with
  | nil => simp
  | cons s shas ih =>
      rw [List.foldl_cons, ih, BlobStore.remove, Table.get?_deleteWhere]
      by_cases hs : sha = s
      · cases files.get? sha <;> simp [hs]
      · cases files.get? sha <;> simp [hs, Option.filter]

theorem get?_files_cleanup :
    (cleanup c now).files.get? sha =
      if (c.rawObjects.get? sha).any fun row => row.isRemovable now then none
      else c.files.get? sha := by
  have hmem : sha ∈ removable c now ↔
      ((c.rawObjects.get? sha).any fun row => row.isRemovable now) = true := by
    simp only [removable, List.mem_map, List.mem_filter, Table.mem_rows_iff, Option.any_eq_true]
    constructor
    · rintro ⟨r, ⟨hrow, hremovable⟩, rfl⟩
      exact ⟨r.2, hrow, hremovable⟩
    · rintro ⟨row, hrow, hremovable⟩
      exact ⟨(sha, row), ⟨hrow, hremovable⟩, rfl⟩
  simp only [cleanup, deleteRemovable, get?_foldl_remove, hmem]

theorem get?_rawObjects_cleanup :
    (cleanup c now).rawObjects.get? sha =
      (c.rawObjects.get? sha).filter fun row => !row.isRemovable now := by
  rw [rawObjects_cleanup, Table.get?_deleteWhere]

/-- Everything expires some time. -/
theorem exists_ts_ge (n : ℤ) : ∃ now : OffsetDateTime, n ≤ ts now := by
  refine ⟨max n 0 * 1000000000, ?_⟩
  have hts : ts (max n 0 * 1000000000) = max n 0 * 1000 := by
    rw [ts, Int.mul_ediv_cancel _ (by decide)]
  omega

end Cleanup

/-! ## Rows, files and pins -/

namespace Uploads

/-- Every row has its file. -/
def Filed (c : Contents) : Prop :=
  ∀ sha, (c.rawObjects.get? sha).isSome → (c.files.get? sha).isSome

/-- The objects of the uploads have rows, and somebody's pin. -/
def Pinned (c : Contents) (active : List (Uuid × String)) : Prop :=
  ∀ a ∈ active, ∃ row, c.rawObjects.get? a.2 = some row ∧ row.pinnedByCommandId ≠ none

variable {client : ClientInstance} {codec : Codec} {c c' : Contents} {u : Uploads}
  {active : List (Uuid × String)}

/-- What is pinned is safe, and nothing else is. -/
theorem protected_iff (h : Filed u.contents) : u.Protected ↔ Pinned u.contents u.active := by
  constructor
  · intro hprotected a ha
    have hrow := (hprotected 0 a ha).1
    rw [get?_rawObjects_cleanup, Option.isSome_iff_exists] at hrow
    rcases hrow with ⟨row, hrow⟩
    rw [Option.filter_eq_some_iff] at hrow
    refine ⟨row, hrow.1, fun hpin => ?_⟩
    rcases exists_ts_ge row.expiresAt with ⟨now, hnow⟩
    have hlate := (hprotected now a ha).1
    simp [get?_rawObjects_cleanup, hrow.1, RawObjectRow.isRemovable, hnow, hpin] at hlate
  · intro hpinned now a ha
    rcases hpinned a ha with ⟨row, hrow, hpin⟩
    have hkept : row.isRemovable now = false := by
      cases hid : row.pinnedByCommandId with
      | none => exact absurd hid hpin
      | some id => simp [RawObjectRow.isRemovable, hid]
    have hfile := h a.2 (by simp [hrow])
    rw [get?_rawObjects_cleanup, get?_files_cleanup, hrow]
    simp [hkept, hfile]

/-! ### What each operation does -/

theorem Filed.of_eq (h : Filed c) (hrows : c'.rawObjects = c.rawObjects)
    (hfiles : c'.files = c.files) : Filed c' := by
  rw [Filed, hrows, hfiles]
  exact h

/-- Setting or removing pins. -/
theorem Filed.updateWhere (h : Filed c) (p : String → RawObjectRow → Bool)
    (f : RawObjectRow → RawObjectRow) (hrows : c'.rawObjects = c.rawObjects.updateWhere p f)
    (hfiles : c'.files = c.files) : Filed c' := by
  intro sha hrow
  rw [hrows, Table.get?_updateWhere, Option.isSome_map] at hrow
  rw [hfiles]
  exact h sha hrow

theorem Filed.storeContents (h : Filed c) (inputs : List StoredContentInput) :
    Filed (storeContents codec c inputs).2 := by
  induction inputs generalizing c with
  | nil => exact h
  | cons input inputs ih =>
      rw [Client.storeContents]
      cases hpersist : persistContent codec c input with
      | none => exact h
      | some persisted =>
          rcases persistContent_eq_some.mp hpersist with ⟨-, hstored, hc⟩
          refine ih ?_
          rw [← hc]
          intro sha hrow
          rw [Table.get?_replace] at hrow
          rw [Table.get?_insertIgnore]
          split
          · simp
          · rename_i hsha
            rw [if_neg hsha] at hrow
            exact h sha hrow

/-- Files that are written are no loss. -/
theorem isSome_files_storeContents {sha : String} (h : (c.files.get? sha).isSome)
    (inputs : List StoredContentInput) :
    ((storeContents codec c inputs).2.files.get? sha).isSome := by
  induction inputs generalizing c with
  | nil => exact h
  | cons input inputs ih =>
      rw [Client.storeContents]
      cases hpersist : persistContent codec c input with
      | none => exact h
      | some persisted =>
          rcases persistContent_eq_some.mp hpersist with ⟨-, hstored, hc⟩
          refine ih ?_
          rw [← hc, Table.get?_insertIgnore]
          split
          · simp
          · exact h

/-- What is stored comes without a pin, and other rows stay. -/
theorem get?_storeContents (inputs : List StoredContentInput)
    (hstored : (storeContents codec c inputs).1 = true) (sha : String) :
    ((∀ input ∈ inputs, sha ≠ codec.sha256Hex input.body) →
      (storeContents codec c inputs).2.rawObjects.get? sha = c.rawObjects.get? sha) ∧
    ((∃ input ∈ inputs, sha = codec.sha256Hex input.body) →
      ∃ row, (storeContents codec c inputs).2.rawObjects.get? sha = some row ∧
        row.pinnedByCommandId = none) := by
  induction inputs generalizing c with
  | nil => simp [Client.storeContents]
  | cons input inputs ih =>
      rw [Client.storeContents] at hstored ⊢
      cases hpersist : persistContent codec c input with
      | none => simp [hpersist] at hstored
      | some persisted =>
          rw [hpersist] at hstored
          rcases persistContent_eq_some.mp hpersist with ⟨-, hblob, hc⟩
          rcases ih hstored with ⟨hother, hsame⟩
          have hrow : persisted.2.rawObjects.get? sha =
              if sha = codec.sha256Hex input.body then some (rawObjectRowOf persisted.1)
              else c.rawObjects.get? sha := by
            rw [← hc, Table.get?_replace, ← hblob]
          constructor
          · intro hnot
            rw [hother fun input' hinput' => hnot input' (by simp [hinput']), hrow,
              if_neg (hnot input (by simp))]
          · rintro ⟨input', hinput', hsha⟩
            by_cases hrest : ∃ input ∈ inputs, sha = codec.sha256Hex input.body
            · exact hsame hrest
            · have hfirst : sha = codec.sha256Hex input.body := by
                rcases List.mem_cons.mp hinput' with rfl | hmem
                · exact hsha
                · exact absurd ⟨input', hmem, hsha⟩ hrest
              simp only [not_exists, not_and] at hrest
              rw [hother hrest, hrow, if_pos hfirst]
              exact ⟨_, rfl, rfl⟩

/-- A failed `persist_ingress` leaves rows as they were, a successful one stores the contents. -/
theorem contents_persistIngress (client : ClientInstance) (codec : Codec) (t : Tick) (s : Store)
    (records : List SummaryRecord) (inputs : List StoredContentInput) :
    ((persistIngress client codec t s records inputs).1 = none ∧
      ∃ files, (persistIngress client codec t s records inputs).2.contents =
        { s.contents with files } ∧
        ∀ sha, (s.contents.files.get? sha).isSome → (files.get? sha).isSome) ∨
    ((persistIngress client codec t s records inputs).1.isSome ∧
      (storeContents codec s.contents inputs).1 = true ∧
      (persistIngress client codec t s records inputs).2.contents =
        (storeContents codec s.contents inputs).2) := by
  have happlied := contents_applyRecords s (records.map (normalizeRecord codec))
  have hkept : ∀ sha, (s.contents.files.get? sha).isSome →
      ((storeContents codec s.contents inputs).2.files.get? sha).isSome :=
    fun _ h => isSome_files_storeContents h inputs
  simp only [persistIngress, happlied]
  split
  · rename_i hstored
    split
    · exact .inr ⟨rfl, hstored, rfl⟩
    · exact .inl ⟨rfl, _, rfl, hkept⟩
  · exact .inl ⟨rfl, _, rfl, hkept⟩

theorem filed_step (client : ClientInstance) (codec : Codec) (h : Filed u.contents)
    (op : StoreOp) : Filed (u.step client codec op).contents := by
  cases op with
  | persistIngress t records inputs =>
      rcases contents_persistIngress client codec t u.history.store records inputs
        with ⟨-, files, hcontents, hkept⟩ | ⟨-, -, hcontents⟩
      · intro sha hrow
        simp only [step, contents, History.step, hcontents] at hrow ⊢
        exact hkept sha (h sha hrow)
      · simp only [step, contents, History.step, hcontents]
        exact h.storeContents inputs
  | saveCommands commands now => exact h.of_eq rfl rfl
  | prepareUpload command now =>
      simp only [step, contents, History.step, prepareUpload]
      split
      · exact h
      · split
        · exact h
        · exact h.updateWhere (fun _ row => row.taskRef = command.request.taskRef)
            (fun row => { row with pinnedByCommandId := some command.commandId }) rfl rfl
  | completeCommand commandId result keepPinned now =>
      simp only [step, contents, History.step, completeCommand]
      split
      · exact h.of_eq rfl rfl
      · exact h.updateWhere (fun _ row => row.pinnedByCommandId = some commandId)
          (fun row => { row with pinnedByCommandId := none }) rfl rfl
  | failCommand commandId error keepPinned now =>
      simp only [step, contents, History.step, failCommand]
      split
      · exact h
      · split
        · exact h.of_eq rfl rfl
        · exact h.updateWhere (fun _ row => row.pinnedByCommandId = some commandId)
            (fun row => { row with pinnedByCommandId := none }) rfl rfl
  | cleanup now =>
      intro sha hrow
      simp only [step, contents, History.step] at hrow ⊢
      rw [get?_rawObjects_cleanup, Option.isSome_iff_exists] at hrow
      rcases hrow with ⟨row, hrow⟩
      rw [Option.filter_eq_some_iff] at hrow
      have hkept : row.isRemovable now = false := by simpa using hrow.2
      have hfile := h sha (by simp only [contents]; rw [hrow.1]; rfl)
      rw [get?_files_cleanup, hrow.1, Option.any_some, hkept, if_neg (by simp)]
      exact hfile

/-! ### Pins -/

theorem Pinned.of_eq (h : Pinned c active) (hrows : c'.rawObjects = c.rawObjects) :
    Pinned c' active := by
  rw [Pinned, hrows]
  exact h

theorem Pinned.filter (h : Pinned c active) (p : Uuid × String → Bool) :
    Pinned c (active.filter p) :=
  fun a ha => h a (List.mem_of_mem_filter ha)

/-- A pin that is set is a pin. -/
theorem Pinned.pin (h : Pinned c active) (p : String → RawObjectRow → Bool) (commandId : Uuid)
    (hrows : c'.rawObjects = c.rawObjects.updateWhere p fun row =>
      { row with pinnedByCommandId := some commandId }) : Pinned c' active := by
  intro a ha
  rcases h a ha with ⟨row, hrow, hpin⟩
  rw [hrows, Table.get?_updateWhere, hrow, Option.map_some]
  refine ⟨_, rfl, ?_⟩
  split
  · simp
  · exact hpin

/-- The objects of a ready upload are pinned. -/
theorem pinned_of_ready {command : ContentRequestCommand} {nowMs : ℤ} {work : UploadWork}
    (h : (prepareUpload c command nowMs).1 = .ready work) :
    Pinned (prepareUpload c command nowMs).2
      (work.manifests.map fun m => (work.commandId, m.objectSha256)) := by
  intro a ha
  rcases List.mem_map.mp ha with ⟨m, hm, rfl⟩
  simp only [prepareUpload] at h ⊢
  split at h
  · cases h
  · rename_i hunexpired
    rw [if_neg hunexpired]
    split at h
    · cases h
    · rename_i manifests hmanifests
      cases h
      rcases exists_of_mem_mapM hmanifests hm with ⟨part, -, hmanifest⟩
      simp only [prepareManifest, bind_eq_ok, exists_unit_and, required_eq_ok,
        pure_eq_ok] at hmanifest
      rcases hmanifest with ⟨⟨sha, row⟩, hnewest, -, rfl⟩
      have hmem := List.argmax_mem hnewest
      rw [List.mem_filter, Table.mem_rows_iff] at hmem
      have htask : row.taskRef = command.request.taskRef := (of_decide_eq_true hmem.2).1
      refine ⟨{ row with pinnedByCommandId := some command.commandId }, ?_, by simp⟩
      simp only [manifestOf, Table.get?_updateWhere, hmem.1, Option.map_some]
      simp [htask]

/-- Letting go of the pins of a command. -/
theorem Pinned.unpin (h : Pinned c active) {commandId : Uuid}
    (hrows : c'.rawObjects = (unpin c commandId).rawObjects) :
    Pinned c' (active.filter fun a => a.1 ≠ commandId) ↔
      ∀ a ∈ active, a.1 ≠ commandId → ∀ row, c.rawObjects.get? a.2 = some row →
        row.pinnedByCommandId ≠ some commandId := by
  have hget : ∀ sha, c'.rawObjects.get? sha = (c.rawObjects.get? sha).map fun row =>
      if row.pinnedByCommandId = some commandId then { row with pinnedByCommandId := none }
      else row := by
    intro sha
    simp [hrows, Client.unpin, Table.get?_updateWhere]
  constructor
  · intro hpinned a ha hne row hrow hpin
    rcases hpinned a (by simp [ha, hne]) with ⟨row', hrow', hpin'⟩
    rw [hget, hrow, Option.map_some, if_pos hpin, Option.some.injEq] at hrow'
    rw [← hrow'] at hpin'
    exact hpin' rfl
  · intro hown a ha
    simp only [List.mem_filter, decide_eq_true_eq] at ha
    rcases h a ha.1 with ⟨row, hrow, hpin⟩
    refine ⟨row, ?_, hpin⟩
    rw [hget, hrow, Option.map_some, if_neg (hown a ha.1 ha.2 row hrow)]

/-- An operation keeps the pins of the uploads exactly when it is careful. -/
theorem careful_iff (client : ClientInstance) (codec : Codec)
    (h : Pinned u.contents u.active) (op : StoreOp) :
    Careful client codec u op ↔
      Pinned (u.step client codec op).contents (u.step client codec op).active := by
  cases op with
  | persistIngress t records inputs =>
      rcases contents_persistIngress client codec t u.history.store records inputs
        with ⟨hfailed, files, hcontents, -⟩ | ⟨hdone, hstored, hcontents⟩
      · simp only [step, contents, History.step, activeAfter, Careful, hcontents, hfailed]
        exact iff_of_true (by simp) (h.of_eq rfl)
      · have hrows := get?_storeContents inputs hstored
        simp only [step, contents, History.step, activeAfter, Careful, hcontents, hdone,
          true_implies]
        constructor
        · intro hcareful a ha
          rcases h a ha with ⟨row, hrow, hpin⟩
          refine ⟨row, ?_, hpin⟩
          rw [(hrows a.2).1 fun input hinput => hcareful input hinput a ha]
          exact hrow
        · intro hpinned input hinput a ha hsha
          rcases hpinned a ha with ⟨row, hrow, hpin⟩
          rcases (hrows a.2).2 ⟨input, hinput, hsha⟩ with ⟨row', hrow', hnone⟩
          cases hrow.symm.trans hrow'
          exact hpin hnone
  | saveCommands commands now => exact iff_of_true trivial (h.of_eq rfl)
  | prepareUpload command now =>
      refine iff_of_true trivial ?_
      have hkept : Pinned (prepareUpload u.contents command (ts now)).2 u.active := by
        rw [prepareUpload]
        split
        · exact h
        · split
          · exact h
          · exact h.pin (fun _ row => row.taskRef = command.request.taskRef) command.commandId rfl
      simp only [step, contents, History.step, activeAfter]
      split
      · rename_i work hready
        intro a ha
        rcases List.mem_append.mp ha with hold | hnew
        · exact hkept a hold
        · exact pinned_of_ready hready a hnew
      · exact hkept
  | completeCommand commandId result keepPinned now =>
      cases keepPinned with
      | true => exact iff_of_true (by simp [Careful]) ((h.filter _).of_eq rfl)
      | false =>
          simp only [Careful, ReleasesOwn, true_implies]
          exact (h.unpin rfl).symm
  | failCommand commandId error keepPinned now =>
      simp only [step, contents, History.step, activeAfter, failCommand, Careful, ReleasesOwn]
      by_cases hcommand : u.history.store.contents.commands.get? commandId = none
      · simp only [hcommand, or_true, if_true]
        exact iff_of_true (by simp) h
      · rcases Option.ne_none_iff_exists'.mp hcommand with ⟨row, hrow⟩
        simp only [hrow]
        cases keepPinned with
        | true =>
            simp only [true_or, if_true]
            exact iff_of_true (by simp) (h.of_eq rfl)
        | false =>
            simp only [ne_eq, reduceCtorEq, not_false_eq_true, true_implies, or_self,
              Bool.false_eq_true, if_false]
            exact (h.unpin rfl).symm
  | cleanup now =>
      refine iff_of_true trivial fun a ha => ?_
      rcases h a ha with ⟨row, hrow, hpin⟩
      refine ⟨row, ?_, hpin⟩
      simp only [step, contents, History.step]
      rw [get?_rawObjects_cleanup]
      simp only [contents] at hrow
      cases hid : row.pinnedByCommandId with
      | none => exact absurd hid hpin
      | some id => simp [hrow, RawObjectRow.isRemovable, hid]

end Uploads

/-! ## Runs -/

/-- From the empty store, exactly the careful runs protect the objects of every upload, in every
state and against a cleanup at any time. -/
theorem protected_run_iff (client : ClientInstance) (codec : Codec) (ops : List StoreOp) :
    Run.Each (Uploads.step client codec) (Uploads.Careful client codec) .empty ops ↔
      Run.Each (Uploads.step client codec)
        (fun u op => (u.step client codec op).Protected) .empty ops := by
  apply Run.each_iff_of_invariant
    (I := fun u => Uploads.Filed u.contents ∧ Uploads.Pinned u.contents u.active)
  · intro u op ⟨hfiled, hpinned⟩ hcareful
    exact ⟨Uploads.filed_step client codec hfiled op,
      (Uploads.careful_iff client codec hpinned op).mp hcareful⟩
  · intro u op ⟨hfiled, hpinned⟩
    rw [Uploads.careful_iff client codec hpinned op,
      Uploads.protected_iff (Uploads.filed_step client codec hfiled op)]
  · constructor
    · intro sha hrow
      cases hrow
    · intro a ha
      cases ha

/-! ## Two commands for a task -/

/-- Another command for the same turn. -/
def otherCommand : ContentRequestCommand := { requestCommand with commandId := .v7 3 }

/-- The first upload is still going on when the second one is over. -/
def twoCommands : List StoreOp :=
  [storeRequest 0 "u" [1], .saveCommands [requestCommand, otherCommand] 1000000000,
    .prepareUpload requestCommand 2000000000,
    .failCommand requestCommand.commandId "connection reset" true 3000000000,
    .prepareUpload otherCommand 4000000000,
    .completeCommand otherCommand.commandId ⟨.v7 2, .stored, none⟩ false 5000000000]

/-- The object of the first upload is cleaned up when it has expired. -/
theorem not_protected_twoCommands :
    ¬ Run.Each (Uploads.step sampleClient (.numbered []))
      (fun u op => (u.step sampleClient (.numbered []) op).Protected) .empty twoCommands := by
  intro h
  have hlast := (Run.each_iff_forall_prefix.mp h) (twoCommands.take 5) twoCommands[5] ⟨[], rfl⟩
  have hrow := (hlast (hours 100) (.v7 1, Text.hexEncode (List.replicate 32 1))
    (by decide +kernel)).1
  revert hrow
  decide +kernel

end Codexwatch.Client
