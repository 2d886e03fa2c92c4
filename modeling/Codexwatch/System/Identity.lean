import Codexwatch.Client.Refinement
import Codexwatch.Server.Ingest

/-!
# Which tasks a task reference tells apart

A task is its provider, session, thread and turn. Its reference is the last three, joined
with colons, and is the key of the client's `active_tasks` and of the server's `tasks`.
No check keeps colons out of an id and the provider is not in the reference, so two
tasks can have one reference; the server's `sessions` are keyed by the ids themselves.

## Main definitions

* `TaskIdentity.parts` — the ids cut at every colon.
* `KeptApart`, `Distinguished` — what tasks that differ must have.

## Main results

* `taskRef_eq_iff` — which identities share a reference.
* `distinguished_iff` — which pairs of valid snapshots are told apart.
-/
namespace Codexwatch

open Protocol Relational

namespace Protocol.TaskIdentity

/-- The session, the thread and the turn, each cut at its colons. -/
def parts (i : TaskIdentity) : List (List Char) :=
  i.sessionId.toList.splitOn ':' ++ i.threadId.toList.splitOn ':' ++ i.turnId.toList.splitOn ':'

theorem splitOn_taskRef (i : TaskIdentity) : i.taskRef.toList.splitOn ':' = i.parts := by
  have hcolon : ":".toList = [':'] := rfl
  simp only [taskRef, parts, String.toList_append, hcolon, List.append_assoc,
    List.cons_append, List.nil_append, List.splitOn_append_cons_self]

theorem eq_of_splitOn_eq {s t : String} (h : s.toList.splitOn ':' = t.toList.splitOn ':') :
    s = t := by
  have hjoined := congrArg [':'].intercalate h
  rw [List.intercalate_splitOn, List.intercalate_splitOn] at hjoined
  exact String.toList_inj.mp hjoined

/-- A reference is known by its parts, and the parts do not show where an id ends. -/
theorem taskRef_eq_iff {i j : TaskIdentity} : i.taskRef = j.taskRef ↔ i.parts = j.parts := by
  rw [← splitOn_taskRef, ← splitOn_taskRef]
  constructor
  · intro h
    rw [h]
  · exact eq_of_splitOn_eq

/-- Where the ids have as many colons one by one, the parts are the ids. -/
theorem parts_eq_iff_of_length {i j : TaskIdentity}
    (hsession : (i.sessionId.toList.splitOn ':').length = (j.sessionId.toList.splitOn ':').length)
    (hthread : (i.threadId.toList.splitOn ':').length = (j.threadId.toList.splitOn ':').length) :
    i.parts = j.parts ↔
      i.sessionId = j.sessionId ∧ i.threadId = j.threadId ∧ i.turnId = j.turnId := by
  constructor
  · intro h
    obtain ⟨hfront, hturn⟩ := List.append_inj h (by simp [hsession, hthread])
    obtain ⟨hsession', hthread'⟩ := List.append_inj hfront hsession
    exact ⟨eq_of_splitOn_eq hsession', eq_of_splitOn_eq hthread', eq_of_splitOn_eq hturn⟩
  · rintro ⟨hsession', hthread', hturn⟩
    simp only [parts, hsession', hthread', hturn]

/-- In particular two tasks without colons in their ids, that differ beside the provider. -/
theorem parts_ne_of_no_colon {i j : TaskIdentity}
    (hi : ':' ∉ i.sessionId.toList ∧ ':' ∉ i.threadId.toList)
    (hj : ':' ∉ j.sessionId.toList ∧ ':' ∉ j.threadId.toList) (hprovider : i.provider = j.provider)
    (hne : i ≠ j) : i.parts ≠ j.parts := by
  intro h
  apply hne
  rw [parts_eq_iff_of_length
    (by rw [List.splitOn_eq_singleton hi.1, List.splitOn_eq_singleton hj.1]; rfl)
    (by rw [List.splitOn_eq_singleton hi.2, List.splitOn_eq_singleton hj.2]; rfl)] at h
  obtain ⟨hsession, hthread, hturn⟩ := h
  cases i
  cases j
  simp_all

end Protocol.TaskIdentity

namespace System

open Client Server

/-! ## Two tasks on both sides -/

/-- The identity under which a task of the client is uploaded. -/
def taskIdentity (key : TaskKey) : TaskIdentity :=
  ⟨key.provider, key.sessionId, key.threadId, key.turnId⟩

theorem taskRef_taskIdentity (key : TaskKey) : (taskIdentity key).taskRef = key.taskRef := rfl

/-- What is written for `b` does not touch the row of `a`, on the server and on the client. -/
structure KeptApart (clientId : String) (a b : TaskSnapshot) : Prop where
  refs : a.taskRef ≠ b.taskRef
  tasks : ∀ (db : Database) (upload : TaskUpload), upload.snapshot = b →
    (persistTaskUpload clientId db upload).tasks.get? a.taskRef = db.tasks.get? a.taskRef
  activeTasks : ∀ (s : Store) (record : SummaryRecord) (key : TaskKey),
    taskIdentity key = b.identity → record.writes = some key.taskRef →
      (applyRecord s record).2.activeTasks.get? a.taskRef = s.activeTasks.get? a.taskRef

/-- Two tasks that differ are kept apart. -/
def Distinguished (clientId : String) (a b : TaskSnapshot) : Prop :=
  a.identity ≠ b.identity → KeptApart clientId a b ∧ KeptApart clientId b a

theorem keptApart_of_ne {clientId : String} {a b : TaskSnapshot} (hb : b.validate = .ok ())
    (hne : a.taskRef ≠ b.taskRef) : KeptApart clientId a b where
  refs := hne
  tasks := by
    rintro db upload rfl
    exact Table.get?_put_of_ne hne
  activeTasks := by
    intro s record key hkey hwrites
    apply get?_applyRecord_of_ne
    rw [hwrites, ← taskRef_taskIdentity, hkey, (TaskSnapshot.validate_eq_ok.mp hb).2.taskRef]
    intro h
    exact hne (Option.some.inj h).symm

/-- Two valid snapshots are told apart exactly if they are of one task or their ids,
cut at every colon, differ. -/
theorem distinguished_iff {clientId : String} {a b : TaskSnapshot} (ha : a.validate = .ok ())
    (hb : b.validate = .ok ()) :
    Distinguished clientId a b ↔ a.identity = b.identity ∨ a.identity.parts ≠ b.identity.parts := by
  have hrefs : a.taskRef = b.taskRef ↔ a.identity.parts = b.identity.parts := by
    rw [← TaskIdentity.taskRef_eq_iff, (TaskSnapshot.validate_eq_ok.mp ha).2.taskRef,
      (TaskSnapshot.validate_eq_ok.mp hb).2.taskRef]
  by_cases hidentity : a.identity = b.identity
  · simp [Distinguished, hidentity]
  · simp only [Distinguished, hidentity, ne_eq, not_false_eq_true, forall_const, false_or]
    constructor
    · rintro ⟨h, -⟩ hparts
      exact h.refs (hrefs.mpr hparts)
    · intro hparts
      have hne : a.taskRef ≠ b.taskRef := fun h => hparts (hrefs.mp h)
      exact ⟨keptApart_of_ne hb hne, keptApart_of_ne ha hne.symm⟩

/-- The running task of session `s`, thread `t` and turn `u`. -/
def runningSnapshot (provider s t u : String) : TaskSnapshot :=
  { sampleSnapshot u 1 with
    taskRef := s ++ ":" ++ t ++ ":" ++ u
    identity := ⟨provider, s, t, u⟩ }

theorem distinguished_runningSnapshot :
    (runningSnapshot "codex" "s" "t" "u").validate = .ok () ∧
      (runningSnapshot "codex" "s" "t" "v").validate = .ok () ∧
      Distinguished "client" (runningSnapshot "codex" "s" "t" "u")
        (runningSnapshot "codex" "s" "t" "v") := by
  have hu : (runningSnapshot "codex" "s" "t" "u").validate = .ok () := by decide
  have hv : (runningSnapshot "codex" "s" "t" "v").validate = .ok () := by decide
  exact ⟨hu, hv, (distinguished_iff hu hv).mpr (.inr (by decide))⟩

/-- Session `a:b` with thread `c`, and session `a` with thread `b:c`, share a row. -/
theorem not_distinguished_colon :
    (runningSnapshot "codex" "a:b" "c" "u").validate = .ok () ∧
      (runningSnapshot "codex" "a" "b:c" "u").validate = .ok () ∧
      ¬ Distinguished "client" (runningSnapshot "codex" "a:b" "c" "u")
        (runningSnapshot "codex" "a" "b:c" "u") := by
  refine ⟨by decide, by decide, ?_⟩
  intro h
  exact (h (by decide)).1.refs (by decide)

end System

end Codexwatch
