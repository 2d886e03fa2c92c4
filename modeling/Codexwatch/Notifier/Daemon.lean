import Mathlib.Data.Finset.Insert
import Mathlib.Data.List.Nodup
import Codexwatch.Lib.Run
import Codexwatch.Protocol.Types

/-!
# The notification daemon

The loop of `notifier/src/main.rs`. A poll goes through the listed tasks, sends a message
for each that is worth one and was not seen before, and saves that it was seen. The first
poll sends nothing, so that only what happens from then on is announced.

What a poll does to the world is a list of actions, sends and saves. A failed send ends the
daemon as a kill does, and both leave a part of the list undone.

## Main definitions

* `noticeKind`, `processTasks`, `poll` — the functions of the source.
* `World`, `step` — the file, the daemon, what was sent; a poll and a restart.
-/
namespace Codexwatch.Notifier

open Protocol

structure Config where
  notifyCompleted : Option Bool
  deriving DecidableEq

/-- `notify_completed()`. -/
def Config.notifiesCompleted (config : Config) : Bool := config.notifyCompleted.getD false

inductive NoticeKind
  | completed | abnormal
  deriving DecidableEq, Repr

/-- What a message is about. -/
structure Notice where
  taskRef : String
  kind : NoticeKind
  deriving DecidableEq

def Config.Enabled (config : Config) (notice : Notice) : Prop :=
  notice.kind ≠ .completed ∨ config.notifiesCompleted = true

instance (config : Config) (notice : Notice) : Decidable (config.Enabled notice) :=
  inferInstanceAs (Decidable (_ ∨ _))

structure NotificationState where
  initialized : Bool
  completedTasks : Finset String
  abnormalTasks : Finset String
  deriving DecidableEq

namespace NotificationState

def default : NotificationState := ⟨false, ∅, ∅⟩

/-- A missing file is a new state. -/
def load (file : Option NotificationState) : NotificationState := file.getD default

def Seen (state : NotificationState) : Notice → Prop
  | ⟨taskRef, .completed⟩ => taskRef ∈ state.completedTasks
  | ⟨taskRef, .abnormal⟩ => taskRef ∈ state.abnormalTasks

instance (state : NotificationState) : (notice : Notice) → Decidable (state.Seen notice)
  | ⟨taskRef, .completed⟩ => inferInstanceAs (Decidable (taskRef ∈ state.completedTasks))
  | ⟨taskRef, .abnormal⟩ => inferInstanceAs (Decidable (taskRef ∈ state.abnormalTasks))

/-- The `insert` into the set of the notice's kind. -/
def record (state : NotificationState) : Notice → NotificationState
  | ⟨taskRef, .completed⟩ => { state with completedTasks := insert taskRef state.completedTasks }
  | ⟨taskRef, .abnormal⟩ => { state with abnormalTasks := insert taskRef state.abnormalTasks }

variable {state : NotificationState} {notice notice' : Notice}

@[simp] theorem seen_record :
    (state.record notice).Seen notice' ↔ notice' = notice ∨ state.Seen notice' := by
  rcases notice with ⟨taskRef, _ | _⟩ <;> rcases notice' with ⟨taskRef', _ | _⟩ <;>
    simp [record, Seen]

@[simp] theorem initialized_record : (state.record notice).initialized = state.initialized := by
  rcases notice with ⟨taskRef, _ | _⟩ <;> rfl

theorem not_seen_default : ¬ default.Seen notice := by
  rcases notice with ⟨taskRef, _ | _⟩ <;> simp [default, Seen]

end NotificationState

/-! ## One poll -/

def noticeKind (task : TaskSnapshot) : Option NoticeKind :=
  if task.lastError.isSome = true ∨ task.integrity ≠ .complete then some .abnormal
  else
    match task.terminal with
    | some .completed => some .completed
    | some _ => some .abnormal
    | none => none

/-- What a poll does to the world. -/
inductive Action
  /-- `send_feishu`, with success. -/
  | send (notice : Notice)
  | save (state : NotificationState)
  deriving DecidableEq

def Action.isSend : Action → Bool
  | .send _ => true
  | .save _ => false

/-- One round of the loop of `process_tasks`. -/
def processTask (config : Config) (deliver : Bool) (state : NotificationState)
    (task : TaskSnapshot) : NotificationState × List Action :=
  match noticeKind task with
  | none => (state, [])
  | some kind =>
      if kind = .abnormal ∧ task.conversationTitle = none then (state, [])
      else if state.Seen ⟨task.taskRef, kind⟩ then (state, [])
      else
        let recorded := state.record ⟨task.taskRef, kind⟩
        if deliver = true ∧ config.Enabled ⟨task.taskRef, kind⟩ then
          (recorded, [.send ⟨task.taskRef, kind⟩, .save recorded])
        else (recorded, [.save recorded])

/-- The rounds for the tasks in this order. -/
def processInTurn (config : Config) (deliver : Bool) :
    NotificationState → List TaskSnapshot → NotificationState × List Action
  | state, [] => (state, [])
  | state, task :: tasks =>
      let (state, actions) := processTask config deliver state task
      let (state, more) := processInTurn config deliver state tasks
      (state, actions ++ more)

/-- `process_tasks`: the listed tasks from the last to the first. -/
def processTasks (config : Config) (deliver : Bool) (state : NotificationState)
    (tasks : List TaskSnapshot) : NotificationState × List Action :=
  processInTurn config deliver state tasks.reverse

/-- One round of the loop of `run_daemon`. -/
def poll (config : Config) (state : NotificationState) (tasks : List TaskSnapshot) :
    NotificationState × List Action :=
  let (state, actions) := processTasks config state.initialized state tasks
  if state.initialized = true then (state, actions)
  else
    let state := { state with initialized := true }
    (state, actions ++ [.save state])

/-! ## What a round does -/

/-- The notice that a task is worth: none while an abnormal task has no title. -/
def noticeOf (task : TaskSnapshot) : Option Notice :=
  (noticeKind task).bind fun kind =>
    if kind = .abnormal ∧ task.conversationTitle = none then none else some ⟨task.taskRef, kind⟩

def noticesOf (tasks : List TaskSnapshot) : List Notice := tasks.filterMap noticeOf

theorem mem_noticesOf {tasks : List TaskSnapshot} {notice : Notice} :
    notice ∈ noticesOf tasks ↔ ∃ task ∈ tasks, noticeOf task = some notice := List.mem_filterMap

theorem noticeOf_eq_some {task : TaskSnapshot} {notice : Notice} :
    noticeOf task = some notice ↔ noticeKind task = some notice.kind ∧
      task.taskRef = notice.taskRef ∧ (notice.kind = .abnormal → task.conversationTitle ≠ none) := by
  obtain ⟨taskRef, kind⟩ := notice
  rw [noticeOf, Option.bind_eq_some_iff]
  constructor
  · rintro ⟨kind', hkind, h⟩
    split at h
    · cases h
    · rename_i htitle
      obtain ⟨rfl, rfl⟩ := Notice.mk.inj (Option.some.inj h)
      exact ⟨hkind, rfl, fun habnormal htitle' => htitle ⟨habnormal, htitle'⟩⟩
  · rintro ⟨hkind, rfl, htitle⟩
    exact ⟨kind, hkind, if_neg fun h => htitle h.1 h.2⟩

/-- The notices among the actions. -/
def sends (actions : List Action) : List Notice :=
  actions.filterMap fun
    | .send notice => some notice
    | .save _ => none

@[simp] theorem sends_nil : sends [] = [] := rfl

@[simp] theorem sends_append (actions more : List Action) :
    sends (actions ++ more) = sends actions ++ sends more := List.filterMap_append ..

@[simp] theorem sends_send (notice : Notice) (actions : List Action) :
    sends (.send notice :: actions) = notice :: sends actions := rfl

@[simp] theorem sends_save (state : NotificationState) (actions : List Action) :
    sends (.save state :: actions) = sends actions := rfl

section Rounds
variable {config : Config} {deliver : Bool} {state : NotificationState} {task : TaskSnapshot}
  {tasks : List TaskSnapshot} {notice : Notice}

/-- The actions of a round for a notice that was not seen. -/
def announce (config : Config) (deliver : Bool) (state : NotificationState) (notice : Notice) :
    List Action :=
  if deliver = true ∧ config.Enabled notice then [.send notice, .save (state.record notice)]
  else [.save (state.record notice)]

theorem processTask_of_none (h : noticeOf task = none) :
    processTask config deliver state task = (state, []) := by
  rw [noticeOf, Option.bind_eq_none_iff] at h
  rw [processTask]
  cases hkind : noticeKind task with
  | none => rfl
  | some kind =>
      have htitle := h kind hkind
      split at htitle
      · rename_i hskip
        exact if_pos hskip
      · cases htitle

theorem processTask_of_seen (h : noticeOf task = some notice) (hseen : state.Seen notice) :
    processTask config deliver state task = (state, []) := by
  obtain ⟨hkind, href, htitle⟩ := noticeOf_eq_some.mp h
  obtain ⟨taskRef, kind⟩ := notice
  subst href
  have hskip : ¬ (kind = .abnormal ∧ task.conversationTitle = none) := fun hc => htitle hc.1 hc.2
  simp only [processTask, hkind, if_neg hskip, if_pos hseen]

theorem processTask_of_new (h : noticeOf task = some notice) (hnew : ¬ state.Seen notice) :
    processTask config deliver state task =
      (state.record notice, announce config deliver state notice) := by
  obtain ⟨hkind, href, htitle⟩ := noticeOf_eq_some.mp h
  obtain ⟨taskRef, kind⟩ := notice
  subst href
  have hskip : ¬ (kind = .abnormal ∧ task.conversationTitle = none) := fun hc => htitle hc.1 hc.2
  simp only [processTask, hkind, if_neg hskip, if_neg hnew, announce]
  split <;> rfl

/-- A round passes the task by, or announces its notice. -/
theorem processTask_cases (config : Config) (deliver : Bool) (state : NotificationState)
    (task : TaskSnapshot) :
    (processTask config deliver state task = (state, []) ∧
      ∀ notice, noticeOf task = some notice → state.Seen notice) ∨
    ∃ notice, noticeOf task = some notice ∧ ¬ state.Seen notice ∧
      processTask config deliver state task =
        (state.record notice, announce config deliver state notice) := by
  cases h : noticeOf task with
  | none => exact .inl ⟨processTask_of_none h, fun _ hnotice => nomatch hnotice⟩
  | some notice =>
      by_cases hseen : state.Seen notice
      · refine .inl ⟨processTask_of_seen h hseen, ?_⟩
        rintro _ ⟨rfl⟩
        exact hseen
      · exact .inr ⟨notice, rfl, hseen, processTask_of_new h hseen⟩

theorem mem_sends_announce {notice' : Notice} :
    notice' ∈ sends (announce config deliver state notice) ↔
      deliver = true ∧ config.Enabled notice ∧ notice' = notice := by
  rw [announce]
  split
  · rename_i h
    simp [h]
  · rename_i h
    simp only [sends_save, sends_nil, List.not_mem_nil, false_iff]
    exact fun h' => h ⟨h'.1, h'.2.1⟩

/-- After the rounds, the notices of the tasks are seen. -/
theorem seen_processInTurn : (processInTurn config deliver state tasks).1.Seen notice ↔
    state.Seen notice ∨ notice ∈ noticesOf tasks := by
  induction tasks generalizing state with
  | nil => simp [processInTurn, noticesOf]
  | cons task tasks ih =>
      rw [processInTurn]
      obtain ⟨hround, hseen⟩ | ⟨new, hnew, -, hround⟩ := processTask_cases config deliver state task
      · rw [hround]
        dsimp only
        rw [ih]
        simp only [mem_noticesOf, List.exists_mem_cons_iff]
        constructor
        · rintro (h | h)
          · exact .inl h
          · exact .inr (.inr h)
        · rintro (h | h | h)
          · exact .inl h
          · exact .inl (hseen notice h)
          · exact .inr h
      · rw [hround]
        dsimp only
        rw [ih, NotificationState.seen_record]
        simp only [mem_noticesOf, List.exists_mem_cons_iff, hnew, Option.some.injEq]
        rw [eq_comm (a := notice), or_assoc]
        exact or_left_comm

theorem initialized_processInTurn :
    (processInTurn config deliver state tasks).1.initialized = state.initialized := by
  induction tasks generalizing state with
  | nil => rfl
  | cons task tasks ih =>
      rw [processInTurn]
      obtain ⟨hround, -⟩ | ⟨new, -, -, hround⟩ := processTask_cases config deliver state task
      · rw [hround]
        exact ih
      · rw [hround]
        dsimp only
        rw [ih, NotificationState.initialized_record]

/-- What is sent is enabled and was not seen. -/
theorem mem_sends_processInTurn :
    notice ∈ sends (processInTurn config deliver state tasks).2 ↔
      deliver = true ∧ config.Enabled notice ∧ ¬ state.Seen notice ∧ notice ∈ noticesOf tasks := by
  induction tasks generalizing state with
  | nil => simp [processInTurn, noticesOf]
  | cons task tasks ih =>
      rw [processInTurn]
      obtain ⟨hround, hseen⟩ | ⟨new, hnew, hnotSeen, hround⟩ :=
        processTask_cases config deliver state task
      · rw [hround]
        dsimp only
        rw [List.nil_append, ih]
        simp only [mem_noticesOf, List.exists_mem_cons_iff]
        constructor
        · rintro ⟨hdeliver, henabled, hfresh, h⟩
          exact ⟨hdeliver, henabled, hfresh, .inr h⟩
        · rintro ⟨hdeliver, henabled, hfresh, h | h⟩
          · exact absurd (hseen notice h) hfresh
          · exact ⟨hdeliver, henabled, hfresh, h⟩
      · rw [hround]
        dsimp only
        rw [sends_append, List.mem_append, mem_sends_announce, ih, NotificationState.seen_record]
        simp only [mem_noticesOf, List.exists_mem_cons_iff, hnew, Option.some.injEq]
        constructor
        · rintro (⟨hdeliver, henabled, rfl⟩ | ⟨hdeliver, henabled, hfresh, h⟩)
          · exact ⟨hdeliver, henabled, hnotSeen, .inl rfl⟩
          · exact ⟨hdeliver, henabled, fun hs => hfresh (.inr hs), .inr h⟩
        · rintro ⟨hdeliver, henabled, hfresh, h⟩
          by_cases heq : notice = new
          · exact .inl ⟨hdeliver, heq ▸ henabled, heq⟩
          · refine .inr ⟨hdeliver, henabled, fun hs => hs.elim heq hfresh, ?_⟩
            exact h.resolve_left fun h => heq h.symm

theorem nodup_sends_processInTurn : (sends (processInTurn config deliver state tasks).2).Nodup := by
  induction tasks generalizing state with
  | nil => exact List.nodup_nil
  | cons task tasks ih =>
      rw [processInTurn]
      obtain ⟨hround, -⟩ | ⟨new, -, -, hround⟩ := processTask_cases config deliver state task
      · rw [hround]
        exact ih
      · rw [hround]
        dsimp only
        rw [sends_append, List.nodup_append']
        refine ⟨?_, ih, ?_⟩
        · rw [announce]
          split <;> simp
        · intro notice hnotice hlater
          obtain ⟨-, -, rfl⟩ := mem_sends_announce.mp hnotice
          have hfresh := (mem_sends_processInTurn.mp hlater).2.2.1
          exact hfresh (by simp)

theorem poll_of_initialized (config : Config) (tasks : List TaskSnapshot)
    (h : state.initialized = true) :
    poll config state tasks = processInTurn config true state tasks.reverse := by
  simp only [poll, processTasks, h, initialized_processInTurn]
  rfl

/-- Until a poll has been finished nothing is sent, and it notes when it is. -/
theorem poll_of_not_initialized (config : Config) (tasks : List TaskSnapshot)
    (h : state.initialized = false) :
    poll config state tasks =
      ({ (processInTurn config false state tasks.reverse).1 with initialized := true },
        (processInTurn config false state tasks.reverse).2 ++
          [.save { (processInTurn config false state tasks.reverse).1 with
            initialized := true }]) := by
  simp only [poll, processTasks, h, initialized_processInTurn]
  rfl

end Rounds

/-! ## The daemon -/

/-- The state file, the state of the running daemon, and the messages that were sent. -/
structure World where
  file : Option NotificationState
  memory : NotificationState
  sent : List Notice

namespace World

/-- Before the first start. -/
def new : World := ⟨none, .default, []⟩

def execute (w : World) : Action → World
  | .send notice => { w with sent := w.sent ++ [notice] }
  | .save state => { w with file := some state }

def executeAll (w : World) (actions : List Action) : World := actions.foldl execute w

end World

inductive Event
  /-- A poll of which that many actions are done. When it has more, the next send failed or
  the daemon was killed, and it is started again. -/
  | poll (tasks : List TaskSnapshot) (executed : ℕ)
  | restart

def step (config : Config) (w : World) : Event → World
  | .poll tasks executed =>
      let (state, actions) := poll config w.memory tasks
      let after := w.executeAll (actions.take executed)
      { after with memory := if executed < actions.length then .load after.file else state }
  | .restart => { w with memory := .load w.file }

section Execution
variable {config : Config} {deliver : Bool} {state : NotificationState} {tasks : List TaskSnapshot}
  {w : World}

theorem executeAll_append (actions more : List Action) :
    w.executeAll (actions ++ more) = (w.executeAll actions).executeAll more := List.foldl_append ..

theorem sent_executeAll (actions : List Action) :
    (w.executeAll actions).sent = w.sent ++ sends actions := by
  induction actions generalizing w with
  | nil => simp [World.executeAll]
  | cons action actions ih =>
      have hcons : w.executeAll (action :: actions) = (w.execute action).executeAll actions := rfl
      cases action with
      | send notice => simp [hcons, ih, World.execute]
      | save state => simp [hcons, ih, World.execute]

theorem file_announce (notice : Notice) :
    (w.executeAll (announce config deliver state notice)).file = some (state.record notice) := by
  rw [announce]
  split <;> rfl

/-- The file holds the state that the rounds come to. -/
theorem load_executeAll (config : Config) (deliver : Bool) (tasks : List TaskSnapshot)
    (h : NotificationState.load w.file = state) :
    NotificationState.load (w.executeAll (processInTurn config deliver state tasks).2).file =
      (processInTurn config deliver state tasks).1 := by
  induction tasks generalizing state w with
  | nil => exact h
  | cons task tasks ih =>
      rw [processInTurn]
      obtain ⟨hround, -⟩ | ⟨new, -, -, hround⟩ := processTask_cases config deliver state task
      · rw [hround]
        exact ih h
      · rw [hround]
        dsimp only
        rw [executeAll_append]
        refine ih ?_
        rw [file_announce]
        rfl

theorem eq_of_prefix_announce {notice : Notice} {actions : List Action}
    (hstart : actions <+: announce config deliver state notice)
    (hlast : ∀ action ∈ actions.getLast?, action.isSend = false) :
    actions = [] ∨ actions = announce config deliver state notice := by
  rw [announce] at hstart ⊢
  split at hstart
  · rename_i hsend
    rw [if_pos hsend]
    rcases actions with _ | ⟨a, _ | ⟨b, rest⟩⟩
    · exact .inl rfl
    · obtain ⟨rfl, -⟩ := List.cons_prefix_cons.mp hstart
      cases hlast _ rfl
    · simp only [List.cons_prefix_cons, List.prefix_nil] at hstart
      obtain ⟨rfl, rfl, rfl⟩ := hstart
      exact .inr rfl
  · rename_i hquiet
    rw [if_neg hquiet]
    rcases actions with _ | ⟨a, rest⟩
    · exact .inl rfl
    · simp only [List.cons_prefix_cons, List.prefix_nil] at hstart
      obtain ⟨rfl, rfl⟩ := hstart
      exact .inr rfl

/-- A part of the actions that does not end with a message comes of whole rounds. -/
theorem exists_rounds_of_prefix {actions : List Action}
    (hstart : actions <+: (processInTurn config deliver state tasks).2)
    (hlast : ∀ action ∈ actions.getLast?, action.isSend = false) :
    ∃ done, done <+: tasks ∧ actions = (processInTurn config deliver state done).2 := by
  induction tasks generalizing state actions with
  | nil => exact ⟨[], List.prefix_rfl, List.prefix_nil.mp hstart⟩
  | cons task tasks ih =>
      rw [processInTurn] at hstart
      obtain ⟨hround, -⟩ | ⟨new, -, -, hround⟩ := processTask_cases config deliver state task
      · rw [hround] at hstart
        obtain ⟨done, hdone, rfl⟩ := ih hstart hlast
        refine ⟨task :: done, List.cons_prefix_cons.mpr ⟨rfl, hdone⟩, ?_⟩
        rw [processInTurn, hround]
        rfl
      · rw [hround] at hstart
        dsimp only at hstart
        obtain hshort | ⟨more, rfl⟩ :=
          List.prefix_or_prefix_of_prefix hstart (List.prefix_append _ _)
        · obtain rfl | rfl := eq_of_prefix_announce hshort hlast
          · exact ⟨[], List.nil_prefix, rfl⟩
          · refine ⟨[task], List.cons_prefix_cons.mpr ⟨rfl, List.nil_prefix⟩, ?_⟩
            rw [processInTurn, hround]
            simp [processInTurn]
        · rw [List.prefix_append_right_inj] at hstart
          have hmore : ∀ action ∈ more.getLast?, action.isSend = false := by
            intro action haction
            exact hlast action (by rw [List.getLast?_append, haction, Option.some_or]; rfl)
          obtain ⟨done, hdone, rfl⟩ := ih hstart hmore
          refine ⟨task :: done, List.cons_prefix_cons.mpr ⟨rfl, hdone⟩, ?_⟩
          rw [processInTurn, hround]

end Execution

end Codexwatch.Notifier
