import Codexwatch.Client.Commands
import Codexwatch.Client.Ingress
import Codexwatch.Client.Projection
import Codexwatch.Lib.Run

/-!
# Files and rows

`persist_ingress` and `cleanup` of `client/src/store.rs`, in the steps that another
operation can come between. A transaction holds the one connection of the pool until it
ends, and its rows show when it is committed; a file is there as soon as it is written.
`cleanup` needs the connection for its statements only, and removes files in between.

## Main definitions

* `FileStep`, `Disk.step` — a step, and what is in progress.
* `Disk.Harmless` — the step neither leaves a file nor takes one away.
* `matched_of_each` — whenever nothing is in progress, the files are those of the rows.
-/
namespace Codexwatch.Client

open Protocol Relational

/-- A transaction of `persist_ingress`: the contents to come, and those that are stored. -/
structure Persisting where
  todo : List StoredContentInput
  written : List StoredBlob

/-- The loop of `cleanup`: the digests whose files are still to be removed. -/
structure Cleaning where
  now : OffsetDateTime
  todo : List String

structure Disk where
  contents : Contents
  persisting : Option Persisting
  cleaning : Option Cleaning

def Disk.empty : Disk := ⟨⟨.empty, .empty, .empty⟩, none, none⟩

inductive FileStep
  /-- `begin` of the transaction, and its records. -/
  | begin (contents : List StoredContentInput)
  /-- `store` and `store_raw_object_tx` of the next content. -/
  | store
  | commit
  /-- The transaction fails, in whatever step. -/
  | rollback
  | select (now : OffsetDateTime)
  | remove
  | delete
  | saveCommands (commands : List ContentRequestCommand) (now : OffsetDateTime)
  | prepareUpload (command : ContentRequestCommand) (now : OffsetDateTime)
  | completeCommand (commandId : Uuid) (result : ContentUploadResult) (keepPinned : Bool)
      (now : OffsetDateTime)
  | failCommand (commandId : Uuid) (error : String) (keepPinned : Bool) (now : OffsetDateTime)

/-- The rows that the transaction has inserted. -/
def insertRows (rawObjects : Table String RawObjectRow) (written : List StoredBlob) :
    Table String RawObjectRow :=
  written.foldl (fun table blob => table.replace blob.objectSha256 (rawObjectRowOf blob)) rawObjects

/-- A statement outside of the transaction in progress waits for the connection. -/
def Disk.whenFree (d : Disk) (c : Contents) : Disk :=
  match d.persisting with
  | none => { d with contents := c }
  | some _ => d

/-- A step that has to wait changes nothing. -/
def Disk.step (codec : Codec) (d : Disk) : FileStep → Disk
  | .begin contents =>
      match d.persisting with
      | none => { d with persisting := some ⟨contents, []⟩ }
      | some _ => d
  | .store =>
      match d.persisting with
      | some ⟨input :: todo, written⟩ =>
          match d.contents.files.store codec input with
          | none => d
          | some (blob, files) =>
              { d with contents.files := files, persisting := some ⟨todo, written ++ [blob]⟩ }
      | _ => d
  | .commit =>
      match d.persisting with
      | some ⟨[], written⟩ =>
          { d with
            contents.rawObjects := insertRows d.contents.rawObjects written
            persisting := none }
      | _ => d
  | .rollback => { d with persisting := none }
  | .select now =>
      match d.persisting, d.cleaning with
      | none, none => { d with cleaning := some ⟨now, removable d.contents now⟩ }
      | _, _ => d
  | .remove =>
      match d.cleaning with
      | some ⟨now, objectSha256 :: todo⟩ =>
          { d with
            contents.files := d.contents.files.remove objectSha256
            cleaning := some ⟨now, todo⟩ }
      | _ => d
  | .delete =>
      match d.persisting, d.cleaning with
      | none, some ⟨now, []⟩ =>
          { d with contents := deleteRemovable d.contents now, cleaning := none }
      | _, _ => d
  | .saveCommands commands now => d.whenFree (Client.saveCommands d.contents commands (ts now))
  | .prepareUpload command now => d.whenFree (Client.prepareUpload d.contents command (ts now)).2
  | .completeCommand commandId result keepPinned now =>
      d.whenFree (Client.completeCommand d.contents commandId result keepPinned (ts now))
  | .failCommand commandId error keepPinned now =>
      d.whenFree (Client.failCommand codec d.contents commandId error keepPinned now)

/-! ## Files and rows -/

def Contents.HasFile (c : Contents) (objectSha256 : String) : Prop :=
  (c.files.get? objectSha256).isSome = true

def Contents.HasRow (c : Contents) (objectSha256 : String) : Prop :=
  (c.rawObjects.get? objectSha256).isSome = true

instance (c : Contents) (objectSha256 : String) : Decidable (c.HasFile objectSha256) :=
  inferInstanceAs (Decidable (_ = true))

instance (c : Contents) (objectSha256 : String) : Decidable (c.HasRow objectSha256) :=
  inferInstanceAs (Decidable (_ = true))

/-- The files are those of the rows. -/
def Contents.Matched (c : Contents) : Prop :=
  ∀ objectSha256, c.HasFile objectSha256 ↔ c.HasRow objectSha256

/-- The transaction in progress has stored the object. -/
def Disk.Stores (d : Disk) (objectSha256 : String) : Prop :=
  ∃ p ∈ d.persisting, ∃ blob ∈ p.written, blob.objectSha256 = objectSha256

instance (d : Disk) (objectSha256 : String) : Decidable (d.Stores objectSha256) :=
  inferInstanceAs (Decidable (∃ p ∈ d.persisting, ∃ blob ∈ p.written, _))

/-- The cleanup in progress is past the object, and will delete its row. -/
def Disk.Discards (d : Disk) (objectSha256 : String) : Prop :=
  ∃ k ∈ d.cleaning, objectSha256 ∉ k.todo ∧
    ∃ row, d.contents.rawObjects.get? objectSha256 = some row ∧ row.isRemovable k.now = true

/-- What the steps must not meet. A transaction that fails has written no file without a row. A
file that is removed is that of a row that is still to be deleted, and not one that the
transaction in progress relies on. A row that is deleted has no file, and one that is pinned has
its file. -/
def Disk.Harmless (d : Disk) : FileStep → Prop
  | .rollback => ∀ p ∈ d.persisting, ∀ blob ∈ p.written, d.contents.HasRow blob.objectSha256
  | .remove => ∀ k ∈ d.cleaning, ∀ objectSha256 ∈ k.todo.head?, ¬ d.Stores objectSha256 ∧
      ∃ row ∈ d.contents.rawObjects.get? objectSha256, row.isRemovable k.now = true
  | .delete => d.persisting.isNone = true → ∀ k ∈ d.cleaning, k.todo = [] →
      ∀ r ∈ d.contents.rawObjects.rows, r.2.isRemovable k.now = true → ¬ d.contents.HasFile r.1
  | .prepareUpload command _ => d.persisting.isNone = true →
      ∀ r ∈ d.contents.rawObjects.rows, r.2.taskRef = command.request.taskRef →
        d.contents.HasFile r.1
  | _ => True

instance (d : Disk) : DecidablePred d.Harmless
  | .rollback => inferInstanceAs (Decidable (∀ p ∈ d.persisting, ∀ blob ∈ p.written, _))
  | .remove => inferInstanceAs (Decidable (∀ k ∈ d.cleaning, ∀ objectSha256 ∈ k.todo.head?, _ ∧ _))
  | .delete => inferInstanceAs (Decidable (_ → ∀ k ∈ d.cleaning, _ → ∀ r ∈ _, _ → ¬ _))
  | .prepareUpload _ _ => inferInstanceAs (Decidable (_ → ∀ r ∈ _, _ → _))
  | .begin _ | .store | .commit | .select _ | .saveCommands _ _ | .completeCommand _ _ _ _
  | .failCommand _ _ _ _ => inferInstanceAs (Decidable True)

/-- Every row has its file unless the cleanup in progress has removed it, and every file its row
unless the transaction in progress has written it. -/
structure Disk.Sound (d : Disk) : Prop where
  hasFile : ∀ objectSha256, d.contents.HasRow objectSha256 →
    d.contents.HasFile objectSha256 ∨ d.Discards objectSha256
  hasRow : ∀ objectSha256, d.contents.HasFile objectSha256 →
    d.contents.HasRow objectSha256 ∨ d.Stores objectSha256
  stores : ∀ objectSha256, d.Stores objectSha256 → d.contents.HasFile objectSha256
  nodup : ∀ k, d.cleaning = some k → k.todo.Nodup

/-! ## What one step keeps -/

section Step
variable {codec : Codec} {d : Disk} {rawObjects : Table String RawObjectRow}
  {written : List StoredBlob} {objectSha256 : String}

theorem stores_iff {p : Persisting} (h : d.persisting = some p) :
    d.Stores objectSha256 ↔ ∃ blob ∈ p.written, blob.objectSha256 = objectSha256 := by
  simp [Disk.Stores, h]

theorem get?_insertRows_of_not_mem (h : ∀ blob ∈ written, blob.objectSha256 ≠ objectSha256) :
    (insertRows rawObjects written).get? objectSha256 = rawObjects.get? objectSha256 := by
  induction written generalizing rawObjects with
  | nil => rfl
  | cons blob written ih =>
      rw [List.forall_mem_cons] at h
      rw [insertRows, List.foldl_cons, ← insertRows, ih h.2, Table.get?_replace,
        if_neg h.1.symm]

theorem isSome_insertRows (h : ∃ blob ∈ written, blob.objectSha256 = objectSha256) :
    ((insertRows rawObjects written).get? objectSha256).isSome = true := by
  induction written generalizing rawObjects with
  | nil => simp at h
  | cons blob written ih =>
      rw [insertRows, List.foldl_cons, ← insertRows]
      by_cases hlater : ∃ blob ∈ written, blob.objectSha256 = objectSha256
      · exact ih hlater
      · obtain ⟨first, hfirst, hsha⟩ := h
        obtain rfl | hmem := List.mem_cons.mp hfirst
        · rw [get?_insertRows_of_not_mem (by simpa using hlater), Table.get?_replace, if_pos hsha.symm]
          rfl
        · exact absurd ⟨first, hmem, hsha⟩ hlater

/-- A step that only replaces rows by rows, and pins none that is to be deleted. -/
theorem Disk.Sound.updateRows (h : d.Sound) {c : Contents} (hfiles : c.files = d.contents.files)
    (hrows : ∀ k, c.HasRow k ↔ d.contents.HasRow k)
    (hdiscards : ∀ k, d.Discards k → ¬ d.contents.HasFile k →
      Disk.Discards { d with contents := c } k) :
    Disk.Sound { d with contents := c } := by
  have hfile : ∀ k, c.HasFile k ↔ d.contents.HasFile k := by
    intro k
    rw [Contents.HasFile, hfiles, Contents.HasFile]
  constructor
  · intro k hk
    by_cases hkf : d.contents.HasFile k
    · exact .inl ((hfile k).mpr hkf)
    · obtain hyes | hno := h.hasFile k ((hrows k).mp hk)
      · exact absurd hyes hkf
      · exact .inr (hdiscards k hno hkf)
  · intro k hk
    obtain hrow | hstores := h.hasRow k ((hfile k).mp hk)
    · exact .inl ((hrows k).mpr hrow)
    · exact .inr hstores
  · intro k hk
    exact (hfile k).mpr (h.stores k hk)
  · exact h.nodup

/-- A pin that is set or removed. -/
theorem Disk.Sound.updatePins (h : d.Sound) {c : Contents} (hfiles : c.files = d.contents.files)
    (p : String → RawObjectRow → Bool) (pin : Option Uuid)
    (hrows : c.rawObjects = d.contents.rawObjects.updateWhere p
      fun row => { row with pinnedByCommandId := pin })
    (hp : ∀ k row, d.contents.rawObjects.get? k = some row → p k row = true →
      d.contents.HasFile k ∨ row.pinnedByCommandId ≠ none) :
    Disk.Sound { d with contents := c } := by
  refine h.updateRows hfiles ?_ ?_
  · intro k
    rw [Contents.HasRow, Contents.HasRow, hrows, Table.get?_updateWhere, Option.isSome_map]
  · intro k ⟨cleaning, hcleaning, htodo, row, hrow, hremovable⟩ hfile
    refine ⟨cleaning, hcleaning, htodo, row, ?_, hremovable⟩
    have hnot : p k row ≠ true := by
      intro hk
      obtain hyes | hpinned := hp k row hrow hk
      · exact hfile hyes
      · rw [RawObjectRow.isRemovable, Bool.and_eq_true, Option.isNone_iff_eq_none] at hremovable
        exact hpinned hremovable.2
    rw [hrows, Table.get?_updateWhere, hrow, Option.map_some, if_neg hnot]

theorem Disk.Sound.updateCommands (h : d.Sound) {c : Contents}
    (hfiles : c.files = d.contents.files) (hrows : c.rawObjects = d.contents.rawObjects) :
    Disk.Sound { d with contents := c } := by
  refine h.updateRows hfiles ?_ ?_
  · intro k
    rw [Contents.HasRow, Contents.HasRow, hrows]
  · intro k ⟨cleaning, hcleaning, htodo, row, hrow, hremovable⟩ _
    exact ⟨cleaning, hcleaning, htodo, row, by rw [hrows, hrow], hremovable⟩

theorem Disk.Sound.unpin (h : d.Sound) {c : Contents} (hfiles : c.files = d.contents.files)
    (hrows : c.rawObjects = d.contents.rawObjects) (commandId : Uuid) :
    Disk.Sound { d with contents := Client.unpin c commandId } := by
  refine h.updatePins hfiles (fun _ row => row.pinnedByCommandId = some commandId) none ?_ ?_
  · rw [Client.unpin, hrows]
  · intro k row _ hrow
    right
    rw [of_decide_eq_true hrow]
    simp

theorem Disk.Sound.whenFree (h : d.Sound) {c : Contents}
    (hfree : d.persisting = none → Disk.Sound { d with contents := c }) :
    (d.whenFree c).Sound := by
  rw [Disk.whenFree]
  split
  · rename_i hnone
    exact hfree hnone
  · exact h

theorem Disk.Sound.prepareUpload {command : ContentRequestCommand} {now : OffsetDateTime}
    (h : d.Sound) (hharmless : d.Harmless (.prepareUpload command now)) :
    (d.step codec (.prepareUpload command now)).Sound := by
  refine h.whenFree fun hfree => ?_
  rw [Client.prepareUpload]
  split
  · exact h
  · split
    · exact h
    · refine h.updatePins rfl (fun _ row => row.taskRef = command.request.taskRef)
        (some command.commandId) rfl ?_
      intro k row hrow htask
      exact .inl (hharmless (by rw [hfree]; rfl) (k, row) (Table.mem_rows_iff.mpr hrow)
        (of_decide_eq_true htask))

theorem Disk.Sound.completeCommand {commandId : Uuid} {result : ContentUploadResult}
    {keepPinned : Bool} {now : OffsetDateTime} (h : d.Sound) :
    (d.step codec (.completeCommand commandId result keepPinned now)).Sound := by
  refine h.whenFree fun _ => ?_
  rw [Client.completeCommand]
  split
  · exact h.updateCommands rfl rfl
  · refine h.unpin ?_ ?_ commandId <;> rfl

theorem Disk.Sound.failCommand {commandId : Uuid} {error : String} {keepPinned : Bool}
    {now : OffsetDateTime} (h : d.Sound) :
    (d.step codec (.failCommand commandId error keepPinned now)).Sound := by
  refine h.whenFree fun _ => ?_
  rw [Client.failCommand]
  split
  · exact h
  · split
    · exact h.updateCommands rfl rfl
    · refine h.unpin ?_ ?_ commandId <;> rfl

/-- The file of a content is written in the transaction that stores it. -/
theorem Disk.Sound.store (h : d.Sound) : (d.step codec .store).Sound := by
  rw [Disk.step]
  split
  · rename_i input todo written hpersisting
    split
    · exact h
    · rename_i blob files hstore
      have hfiles : files = d.contents.files.insertIgnore blob.objectSha256 blob.compressedBytes := by
        rw [BlobStore.store] at hstore
        split at hstore
        · cases hstore
        · cases hstore
          rfl
      have hfile : ∀ k, (files.get? k).isSome = true ↔
          d.contents.HasFile k ∨ k = blob.objectSha256 := by
        intro k
        rw [hfiles, Table.get?_insertIgnore, Contents.HasFile]
        by_cases hk : k = blob.objectSha256
        · cases d.contents.files.get? k <;> simp [hk]
        · cases d.contents.files.get? k <;> simp [hk]
      have hstores : ∀ k, Disk.Stores { d with
          contents.files := files, persisting := some ⟨todo, written ++ [blob]⟩ } k ↔
          d.Stores k ∨ k = blob.objectSha256 := by
        intro k
        rw [stores_iff rfl, stores_iff hpersisting]
        simp only [List.mem_append, List.mem_singleton, or_and_right, exists_or, exists_eq_left]
        rw [eq_comm (a := k)]
      constructor
      · intro k hk
        obtain hyes | hdiscards := h.hasFile k hk
        · exact .inl ((hfile k).mpr (.inl hyes))
        · exact .inr hdiscards
      · intro k hk
        rw [hstores]
        obtain hyes | hnew := (hfile k).mp hk
        · obtain hrow | hold := h.hasRow k hyes
          · exact .inl hrow
          · exact .inr (.inl hold)
        · exact .inr (.inr hnew)
      · intro k hk
        obtain hold | hnew := (hstores k).mp hk
        · exact (hfile k).mpr (.inl (h.stores k hold))
        · exact (hfile k).mpr (.inr hnew)
      · exact h.nodup
  · exact h

/-- The rows that show with the commit have files. -/
theorem Disk.Sound.commit (h : d.Sound) : (d.step codec .commit).Sound := by
  rw [Disk.step]
  split
  · rename_i written hpersisting
    have hstores : ∀ k, d.Stores k ↔ ∃ blob ∈ written, blob.objectSha256 = k :=
      fun _ => stores_iff hpersisting
    have hrest : ∀ k, ¬ d.Stores k →
        (insertRows d.contents.rawObjects written).get? k = d.contents.rawObjects.get? k := by
      intro k hk
      refine get?_insertRows_of_not_mem fun blob hblob hsha => ?_
      exact hk ((hstores k).mpr ⟨blob, hblob, hsha⟩)
    constructor
    · intro k hk
      by_cases hwritten : d.Stores k
      · exact .inl (h.stores k hwritten)
      · rw [Contents.HasRow] at hk
        dsimp only at hk
        rw [hrest k hwritten] at hk
        obtain hyes | ⟨cleaning, hcleaning, htodo, row, hrow, hremovable⟩ := h.hasFile k hk
        · exact .inl hyes
        · exact .inr ⟨cleaning, hcleaning, htodo, row, (hrest k hwritten).trans hrow, hremovable⟩
    · intro k hk
      left
      by_cases hwritten : d.Stores k
      · exact isSome_insertRows ((hstores k).mp hwritten)
      · obtain hrow | hold := h.hasRow k hk
        · rw [Contents.HasRow]
          dsimp only
          rw [hrest k hwritten]
          exact hrow
        · exact absurd hold hwritten
    · intro k ⟨p, hp, _⟩
      cases hp
    · exact h.nodup
  · exact h

theorem Disk.Sound.rollback (h : d.Sound) (hharmless : d.Harmless .rollback) :
    (d.step codec .rollback).Sound := by
  constructor
  · exact h.hasFile
  · intro k hk
    left
    obtain hrow | hold := h.hasRow k hk
    · exact hrow
    · obtain ⟨p, hp, blob, hblob, rfl⟩ := hold
      exact hharmless p hp blob hblob
  · intro k ⟨p, hp, _⟩
    cases hp
  · exact h.nodup

/-- Before the loop of `cleanup` nothing is lost yet. -/
theorem Disk.Sound.select {now : OffsetDateTime} (h : d.Sound) :
    (d.step codec (.select now)).Sound := by
  rw [Disk.step]
  split
  · rename_i hpersisting hcleaning
    constructor
    · intro k hk
      obtain hyes | ⟨cleaning, hsome, -⟩ := h.hasFile k hk
      · exact .inl hyes
      · rw [hcleaning] at hsome
        cases hsome
    · exact h.hasRow
    · exact h.stores
    · intro k hk
      cases hk
      exact (d.contents.rawObjects.nodup.sublist
        (List.filter_sublist.map Prod.fst))
  · exact h

theorem Disk.Sound.remove (h : d.Sound) (hharmless : d.Harmless .remove) :
    (d.step codec .remove).Sound := by
  rw [Disk.step]
  split
  · rename_i now objectSha256 todo hcleaning
    obtain ⟨hstores, row, hrow, hremovable⟩ := hharmless _ hcleaning objectSha256 rfl
    have hnodup := List.nodup_cons.mp (h.nodup _ hcleaning)
    have hfile : ∀ k, ((d.contents.files.remove objectSha256).get? k).isSome = true ↔
        d.contents.HasFile k ∧ k ≠ objectSha256 := by
      intro k
      rw [BlobStore.remove, Table.get?_deleteWhere, Contents.HasFile]
      cases d.contents.files.get? k <;> simp [Option.filter_some]
    constructor
    · intro k hk
      by_cases hsame : k = objectSha256
      · subst hsame
        exact .inr ⟨_, rfl, hnodup.1, row, hrow, hremovable⟩
      · obtain hyes | ⟨cleaning, hsome, htodo, row', hrow', hremovable'⟩ := h.hasFile k hk
        · exact .inl ((hfile k).mpr ⟨hyes, hsame⟩)
        · rw [hcleaning] at hsome
          cases hsome
          exact .inr ⟨_, rfl, fun hmem => htodo (List.mem_cons_of_mem _ hmem), row', hrow',
            hremovable'⟩
    · intro k hk
      exact h.hasRow k ((hfile k).mp hk).1
    · intro k hk
      refine (hfile k).mpr ⟨h.stores k hk, ?_⟩
      rintro rfl
      exact hstores hk
    · intro k hk
      cases hk
      exact hnodup.2
  · exact h

/-- With the rows that are deleted nothing is missing any more. -/
theorem Disk.Sound.delete (h : d.Sound) (hharmless : d.Harmless .delete) :
    (d.step codec .delete).Sound := by
  rw [Disk.step]
  split
  · rename_i now hpersisting hcleaning
    have hget : ∀ k, (deleteRemovable d.contents now).rawObjects.get? k =
        (d.contents.rawObjects.get? k).filter fun row => !row.isRemovable now := by
      intro k
      rw [deleteRemovable, Table.get?_deleteWhere]
    constructor
    · intro k hk
      left
      obtain ⟨row, hrow⟩ := Option.isSome_iff_exists.mp hk
      rw [hget, Option.filter_eq_some_iff] at hrow
      obtain hyes | ⟨cleaning, hsome, -, row', hrow', hremovable⟩ :=
        h.hasFile k (Option.isSome_iff_exists.mpr ⟨row, hrow.1⟩)
      · exact hyes
      · rw [hcleaning] at hsome
        cases hsome
        cases hrow.1.symm.trans hrow'
        simp [hremovable] at hrow
    · intro k hk
      left
      obtain hrow | ⟨p, hp, -⟩ := h.hasRow k hk
      · obtain ⟨row, hrow⟩ := Option.isSome_iff_exists.mp hrow
        rw [Contents.HasRow, Option.isSome_iff_exists]
        refine ⟨row, ?_⟩
        rw [hget, Option.filter_eq_some_iff]
        refine ⟨hrow, ?_⟩
        rw [Bool.not_eq_true', ← Bool.not_eq_true]
        intro hremovable
        exact hharmless (by rw [hpersisting]; rfl) _ hcleaning rfl (k, row)
          (Table.mem_rows_iff.mpr hrow) hremovable hk
      · rw [hpersisting] at hp
        cases hp
    · intro k hk
      exact h.stores k hk
    · intro k hk
      cases hk
  · exact h

/-- One harmless step. -/
theorem Disk.Sound.step {step : FileStep} (h : d.Sound) (hharmless : d.Harmless step) :
    (d.step codec step).Sound := by
  cases step with
  | begin contents =>
      rw [Disk.step]
      split
      · rename_i hpersisting
        constructor
        · exact h.hasFile
        · intro k hk
          obtain hrow | ⟨p, hp, -⟩ := h.hasRow k hk
          · exact .inl hrow
          · rw [hpersisting] at hp
            cases hp
        · intro k ⟨p, hp, blob, hblob, _⟩
          cases hp
          cases hblob
        · exact h.nodup
      · exact h
  | store => exact h.store
  | commit => exact h.commit
  | rollback => exact h.rollback hharmless
  | select now => exact h.select
  | remove => exact h.remove hharmless
  | delete => exact h.delete hharmless
  | saveCommands commands now => exact h.whenFree fun _ => h.updateCommands rfl rfl
  | prepareUpload command now => exact h.prepareUpload hharmless
  | completeCommand commandId result keepPinned now => exact h.completeCommand
  | failCommand commandId error keepPinned now => exact h.failCommand

end Step

/-! ## Whole operations -/

section Operations
variable {codec : Codec} {d : Disk} {c c' : Contents} {inputs : List StoredContentInput}

/-- The steps between `begin` and `commit` write what `storeContents` does. -/
theorem run_stores {written : List StoredBlob} (hpersisting : d.persisting = some ⟨inputs, written⟩)
    (hfiles : c.files = d.contents.files) (h : storeContents codec c inputs = (true, c')) :
    ∃ blobs, Run.run (Disk.step codec) d (List.replicate inputs.length .store) =
        { d with contents.files := c'.files, persisting := some ⟨[], written ++ blobs⟩ } ∧
      c' = { c with files := c'.files, rawObjects := insertRows c.rawObjects blobs } := by
  induction inputs generalizing d c written with
  | nil =>
      cases h
      refine ⟨[], ?_, rfl⟩
      rw [hfiles, List.append_nil, ← hpersisting]
      rfl
  | cons input inputs ih =>
      rw [storeContents] at h
      cases hstore : persistContent codec c input with
      | none =>
          rw [hstore] at h
          cases h
      | some persisted =>
          obtain ⟨blob, c₁⟩ := persisted
          rw [hstore] at h
          obtain ⟨⟨blob', files⟩, hblob, hc⟩ := Option.bind_eq_some_iff.mp hstore
          cases hc
          rw [hfiles] at hblob
          obtain ⟨blobs, hrun, hc'⟩ := ih
            (d := { d with
              contents.files := files, persisting := some ⟨inputs, written ++ [blob]⟩ })
            (c := { c with
              files
              rawObjects := c.rawObjects.replace blob.objectSha256 (rawObjectRowOf blob) })
            rfl rfl h
          refine ⟨blob :: blobs, ?_, hc'⟩
          have hstep : d.step codec .store = { d with
              contents.files := files, persisting := some ⟨inputs, written ++ [blob]⟩ } := by
            simp only [Disk.step, hpersisting, hblob]
          rw [List.length_cons, List.replicate_succ, Run.run_cons, hstep, hrun,
            List.append_assoc, List.singleton_append]

/-- A transaction that succeeds, on its own. -/
theorem run_persist (hfree : d.persisting = none)
    (h : storeContents codec d.contents inputs = (true, c')) :
    Run.run (Disk.step codec) d (.begin inputs :: (List.replicate inputs.length .store ++ [.commit])) =
      { d with contents := c' } := by
  have hbegin : d.step codec (.begin inputs) = { d with persisting := some ⟨inputs, []⟩ } := by
    simp only [Disk.step, hfree]
  obtain ⟨blobs, hrun, hc'⟩ := run_stores (d := { d with persisting := some ⟨inputs, []⟩ }) rfl rfl h
  rw [Run.run_cons, hbegin, Run.run_snoc, hrun, hc']
  simp only [Disk.step, List.nil_append, hfree]

/-- The loop of `cleanup`. -/
theorem run_removes {now : OffsetDateTime} {todo : List String}
    (hcleaning : d.cleaning = some ⟨now, todo⟩) :
    Run.run (Disk.step codec) d (List.replicate todo.length .remove) =
      { d with
        contents.files := todo.foldl BlobStore.remove d.contents.files
        cleaning := some ⟨now, []⟩ } := by
  induction todo generalizing d with
  | nil =>
      rw [← hcleaning]
      rfl
  | cons objectSha256 todo ih =>
      rw [List.length_cons, List.replicate_succ, Run.run_cons]
      have hstep : d.step codec .remove = { d with
          contents.files := d.contents.files.remove objectSha256
          cleaning := some ⟨now, todo⟩ } := by
        simp only [Disk.step, hcleaning]
      rw [hstep, ih rfl, List.foldl_cons]

/-- A cleanup on its own. -/
theorem run_cleanup {now : OffsetDateTime} (hfree : d.persisting = none)
    (hcleaning : d.cleaning = none) :
    Run.run (Disk.step codec) d
        (.select now :: (List.replicate (removable d.contents now).length .remove ++ [.delete])) =
      { d with contents := cleanup d.contents now } := by
  have hselect : d.step codec (.select now) =
      { d with cleaning := some ⟨now, removable d.contents now⟩ } := by
    simp only [Disk.step, hfree, hcleaning]
  rw [Run.run_cons, hselect, Run.run_snoc, run_removes rfl]
  simp only [Disk.step, hfree, hcleaning, cleanup]

end Operations

/-! ## Runs -/

section Runs
variable {codec : Codec} {d : Disk} {steps : List FileStep}

theorem Disk.Sound.run (h : d.Sound) (hharmless : Run.Each (Disk.step codec) Disk.Harmless d steps) :
    (Run.run (Disk.step codec) d steps).Sound := by
  induction steps generalizing d with
  | nil => exact h
  | cons step steps ih => exact ih (h.step hharmless.1) hharmless.2

theorem sound_empty : Disk.empty.Sound where
  hasFile k hk := by cases hk
  hasRow k hk := by cases hk
  stores k := by
    intro ⟨p, hp, _⟩
    cases hp
  nodup k hk := by cases hk

/-- Whenever no transaction and no cleanup is in progress, the files are those of the rows, if
every step before was harmless. -/
theorem matched_of_each (hharmless : Run.Each (Disk.step codec) Disk.Harmless .empty steps)
    (hpersisting : (Run.run (Disk.step codec) .empty steps).persisting = none)
    (hcleaning : (Run.run (Disk.step codec) .empty steps).cleaning = none) :
    (Run.run (Disk.step codec) .empty steps).contents.Matched := by
  have hsound := sound_empty.run hharmless
  intro k
  constructor
  · intro hfile
    obtain hrow | ⟨p, hp, -⟩ := hsound.hasRow k hfile
    · exact hrow
    · rw [hpersisting] at hp
      cases hp
  · intro hrow
    obtain hfile | ⟨cleaning, hsome, -⟩ := hsound.hasFile k hrow
    · exact hfile
    · rw [hcleaning] at hsome
      cases hsome

end Runs

/-! ## A small store -/

/-- A content that is stored in the second with this number, under a media type. -/
def sampleContent (second : ℕ) (mediaType : String) (body : Bytes) : StoredContentInput where
  task := ⟨"a", "codex", "s", "t", "u"⟩
  part := .request
  mediaType := mediaType
  body := body
  headers := []
  createdAt := second * 1000000000

/-- The time at which the content of the first second has expired. -/
def lateNow : OffsetDateTime := hours 73

/-- A cleanup, and beside it a transaction that stores another content. -/
def disjointSteps : List FileStep :=
  [.begin [sampleContent 0 "a/b" [1]], .store, .commit, .select lateNow,
    .begin [sampleContent 300000 "a/b" [2]], .remove, .store, .commit, .delete]

theorem matched_disjointSteps :
    (Run.run (Disk.step (.numbered [])) .empty disjointSteps).contents.Matched := by
  refine matched_of_each ?_ rfl rfl
  refine ⟨?_, ?_, ?_, ?_, ?_, ?_, ?_, ?_, ?_, trivial⟩ <;> decide

/-- The second content has no media type, after the first one is stored. -/
def refusedSteps : List FileStep :=
  [.begin [sampleContent 0 "a/b" [1], sampleContent 0 "" [2]], .store, .store, .rollback]

theorem not_matched_refusedSteps :
    ¬ ∀ steps : List FileStep,
      (Run.run (Disk.step (.numbered [])) .empty steps).persisting = none →
      (Run.run (Disk.step (.numbered [])) .empty steps).cleaning = none →
      (Run.run (Disk.step (.numbered [])) .empty steps).contents.Matched := by
  intro h
  have hmatched := h refusedSteps rfl rfl (Codec.sha256Hex (.numbered []) [1])
  have hrow := hmatched.mp rfl
  cases hrow

end Codexwatch.Client
