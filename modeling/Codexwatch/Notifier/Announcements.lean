import Codexwatch.Notifier.Daemon

/-!
# What is announced

A notice is sent once, and only for what happens after the first poll. Three things go
wrong: a message whose send is not followed by its save is sent again; a first poll that
is not finished is silent once more; and the first poll passes by abnormal tasks without a
title, so that they are announced when they get one.

## Main definitions

* `Announces` — what was there is not announced, what comes is, and nothing twice.
* `Undisturbed` — a poll of which none of the three is so.
* `announces_run` — in runs of such polls it is as it should be.
-/
namespace Codexwatch.Notifier

open Protocol

/-- The daemon goes through all of its list. -/
def Completes (config : Config) (w : World) (tasks : List TaskSnapshot) (executed : ℕ) : Prop :=
  (poll config w.memory tasks).2.length ≤ executed

/-- A run that begins with the poll of `first`. -/
structure Announces (config : Config) (first : List TaskSnapshot) (events : List Event) : Prop where
  /-- No notice is sent twice. -/
  once : ∀ done, done <+: events → (Run.run (step config) .new done).sent.Nodup
  /-- What was so at the first poll is not announced. -/
  never : ∀ done, done <+: events → ∀ task ∈ first, ∀ kind, noticeKind task = some kind →
    ⟨task.taskRef, kind⟩ ∉ (Run.run (step config) .new done).sent
  /-- What was not, and is so at a completed poll, was announced. -/
  announced : ∀ done tasks executed, done ++ [.poll tasks executed] <+: events →
    Completes config (Run.run (step config) .new done) tasks executed →
    ∀ task ∈ tasks, ∀ kind, noticeKind task = some kind →
      (kind = .abnormal → task.conversationTitle ≠ none) →
      (kind = .completed → config.notifiesCompleted = true) →
      (∀ old ∈ first, old.taskRef = task.taskRef → noticeKind old ≠ some kind) →
      ⟨task.taskRef, kind⟩ ∈ (Run.run (step config) .new (done ++ [.poll tasks executed])).sent

/-- A poll that is not interrupted between a send and its save. While no poll was finished,
it lists what the first did; afterwards, no abnormal task that had no title then. -/
structure PollUndisturbed (config : Config) (first : List TaskSnapshot) (w : World)
    (tasks : List TaskSnapshot) (executed : ℕ) : Prop where
  saved : ∀ action ∈ ((poll config w.memory tasks).2.take executed).getLast?, action.isSend = false
  same : w.memory.initialized = false →
    noticesOf tasks ⊆ noticesOf first ∧ noticesOf first ⊆ noticesOf tasks
  titled : w.memory.initialized = true → ∀ task ∈ first, noticeKind task = some .abnormal →
    task.conversationTitle = none → ⟨task.taskRef, .abnormal⟩ ∉ noticesOf tasks

instance (config : Config) (first : List TaskSnapshot) (w : World) (tasks : List TaskSnapshot)
    (executed : ℕ) : Decidable (PollUndisturbed config first w tasks executed) :=
  decidable_of_iff (_ ∧ _ ∧ _) ⟨fun h => ⟨h.1, h.2.1, h.2.2⟩, fun h => ⟨h.1, h.2, h.3⟩⟩

def Undisturbed (config : Config) (first : List TaskSnapshot) (w : World) : Event → Prop
  | .poll tasks executed => PollUndisturbed config first w tasks executed
  | .restart => True

instance (config : Config) (first : List TaskSnapshot) (w : World) :
    (e : Event) → Decidable (Undisturbed config first w e)
  | .poll tasks executed =>
      inferInstanceAs (Decidable (PollUndisturbed config first w tasks executed))
  | .restart => inferInstanceAs (Decidable True)

/-! ## One poll -/

/-- What a run of undisturbed polls keeps. -/
structure Kept (config : Config) (first : List TaskSnapshot) (w : World) : Prop where
  synced : w.memory = .load w.file
  nodup : w.sent.Nodup
  recorded : ∀ notice ∈ w.sent, w.memory.Seen notice
  silent : w.memory.initialized = false → w.sent = []
  baseline : w.memory.initialized = true → ∀ notice ∈ noticesOf first, w.memory.Seen notice
  never : ∀ task ∈ first, ∀ kind, noticeKind task = some kind → ⟨task.taskRef, kind⟩ ∉ w.sent
  explained : ∀ notice, w.memory.Seen notice →
    notice ∈ noticesOf first ∨ notice ∈ w.sent ∨ ¬ config.Enabled notice

section Poll
variable {config : Config} {first tasks : List TaskSnapshot} {w : World} {executed : ℕ}

/-- The state that a daemon comes to by whole rounds, and what it sent. -/
structure CameTo (w w' : World) (state : NotificationState) (actions : List Action) : Prop where
  memory : w'.memory = state
  synced : w'.memory = .load w'.file
  sent : w'.sent = w.sent ++ sends actions

/-- A poll that is cut off after whole rounds. -/
theorem cameTo_of_cut {deliver : Bool} {done : List TaskSnapshot}
    (hsynced : w.memory = .load w.file) (hcut : executed < (poll config w.memory tasks).2.length)
    (hactions : (poll config w.memory tasks).2.take executed =
      (processInTurn config deliver w.memory done).2) :
    CameTo w (step config w (.poll tasks executed)) (processInTurn config deliver w.memory done).1
      (processInTurn config deliver w.memory done).2 where
  memory := by
    simp only [step, hactions, if_pos hcut, load_executeAll config deliver done hsynced.symm]
  synced := by simp only [step, if_pos hcut]
  sent := by simp only [step, hactions, sent_executeAll]

/-- A poll that is carried out to the end. -/
theorem cameTo_of_whole (hwhole : (poll config w.memory tasks).2.length ≤ executed)
    (hload : NotificationState.load (w.executeAll (poll config w.memory tasks).2).file =
      (poll config w.memory tasks).1) :
    CameTo w (step config w (.poll tasks executed)) (poll config w.memory tasks).1
      (poll config w.memory tasks).2 where
  memory := by simp only [step, if_neg (not_lt.mpr hwhole)]
  synced := by
    simp only [step, List.take_of_length_le hwhole, if_neg (not_lt.mpr hwhole), hload]
  sent := by simp only [step, List.take_of_length_le hwhole, sent_executeAll]

/-- A poll that is not interrupted between a send and its save does whole rounds, and the
first one to be completed notes that it was. -/
theorem step_poll_cases (hsynced : w.memory = .load w.file)
    (hsaved : ∀ action ∈ ((poll config w.memory tasks).2.take executed).getLast?,
      action.isSend = false) :
    (∃ done, done <+: tasks.reverse ∧
      CameTo w (step config w (.poll tasks executed))
        (processInTurn config w.memory.initialized w.memory done).1
        (processInTurn config w.memory.initialized w.memory done).2 ∧
      (Completes config w tasks executed →
        done = tasks.reverse ∧ w.memory.initialized = true)) ∨
    (w.memory.initialized = false ∧
      CameTo w (step config w (.poll tasks executed))
        { (processInTurn config false w.memory tasks.reverse).1 with initialized := true }
        (processInTurn config false w.memory tasks.reverse).2) := by
  cases hinitialized : w.memory.initialized with
  | true =>
      have hpoll := poll_of_initialized config tasks hinitialized
      left
      by_cases hcut : executed < (poll config w.memory tasks).2.length
      · have hprefix := List.take_prefix executed (poll config w.memory tasks).2
        rw [hpoll] at hsaved hprefix
        obtain ⟨done, hdone, hactions⟩ := exists_rounds_of_prefix hprefix hsaved
        rw [← hpoll] at hactions
        exact ⟨done, hdone, cameTo_of_cut hsynced hcut hactions,
          fun hcompletes => absurd hcut (not_lt.mpr hcompletes)⟩
      · have hload := load_executeAll config true tasks.reverse hsynced.symm
        rw [← hpoll] at hload
        have hcame := cameTo_of_whole (not_lt.mp hcut) hload
        rw [hpoll] at hcame
        exact ⟨tasks.reverse, List.prefix_rfl, hcame, fun _ => ⟨rfl, rfl⟩⟩
  | false =>
      have hpoll := poll_of_not_initialized config tasks hinitialized
      have hlength : (poll config w.memory tasks).2.length =
          (processInTurn config false w.memory tasks.reverse).2.length + 1 := by
        rw [hpoll, List.length_append, List.length_singleton]
      by_cases hcut : executed ≤ (processInTurn config false w.memory tasks.reverse).2.length
      · left
        have htake : (poll config w.memory tasks).2.take executed =
            (processInTurn config false w.memory tasks.reverse).2.take executed := by
          rw [hpoll]
          exact List.take_append_of_le_length hcut
        rw [htake] at hsaved
        obtain ⟨done, hdone, hactions⟩ :=
          exists_rounds_of_prefix (List.take_prefix executed _) hsaved
        refine ⟨done, hdone, cameTo_of_cut hsynced (by omega) (htake.trans hactions),
          fun hcompletes => ?_⟩
        rw [Completes] at hcompletes
        omega
      · right
        have hload : NotificationState.load (w.executeAll (poll config w.memory tasks).2).file =
            (poll config w.memory tasks).1 := by
          rw [hpoll, executeAll_append]
          rfl
        have hwhole : (poll config w.memory tasks).2.length ≤ executed := by omega
        have hcame := cameTo_of_whole hwhole hload
        have hsent := hcame.sent
        rw [hpoll] at hcame hsent
        rw [sends_append, sends_save, sends_nil, List.append_nil] at hsent
        exact ⟨rfl, hcame.memory, hcame.synced, hsent⟩

theorem noticesOf_subset {done : List TaskSnapshot} (hdone : done <+: tasks.reverse) {notice : Notice}
    (h : notice ∈ noticesOf done) : notice ∈ noticesOf tasks := by
  rw [mem_noticesOf] at h ⊢
  obtain ⟨task, htask, hnotice⟩ := h
  exact ⟨task, List.mem_reverse.mp (hdone.subset htask), hnotice⟩

theorem mem_noticesOf_reverse {notice : Notice} :
    notice ∈ noticesOf tasks.reverse ↔ notice ∈ noticesOf tasks := by
  simp only [mem_noticesOf, List.mem_reverse]

/-- Whole rounds of an undisturbed poll keep what is kept. -/
theorem Kept.cameTo {w' : World} {state : NotificationState} {done : List TaskSnapshot}
    (hw : Kept config first w) (hpoll : PollUndisturbed config first w tasks executed)
    (hdone : done <+: tasks.reverse)
    (hcame : CameTo w w' state (processInTurn config w.memory.initialized w.memory done).2)
    (hseen : ∀ notice, state.Seen notice ↔ w.memory.Seen notice ∨ notice ∈ noticesOf done)
    (hready : state.initialized = true → w.memory.initialized = true ∨
      ∀ notice ∈ noticesOf first, notice ∈ noticesOf done)
    (hnotReady : state.initialized = false → w.memory.initialized = false) :
    Kept config first w' := by
  obtain ⟨hmemory, hsynced, hsent⟩ := hcame
  refine ⟨hsynced, ?_, ?_, ?_, ?_, ?_, ?_⟩
  · rw [hsent, List.nodup_append']
    refine ⟨hw.nodup, nodup_sends_processInTurn, ?_⟩
    intro notice hold hnew
    exact (mem_sends_processInTurn.mp hnew).2.2.1 (hw.recorded notice hold)
  · intro notice hnotice
    rw [hmemory, hseen]
    rw [hsent, List.mem_append] at hnotice
    obtain hold | hnew := hnotice
    · exact .inl (hw.recorded notice hold)
    · exact .inr (mem_sends_processInTurn.mp hnew).2.2.2
  · intro hinitialized
    have hbefore := hnotReady (hmemory ▸ hinitialized)
    rw [hsent, hw.silent hbefore, List.nil_append, List.eq_nil_iff_forall_not_mem]
    intro notice hnotice
    cases hbefore.symm.trans (mem_sends_processInTurn.mp hnotice).1
  · intro hinitialized notice hnotice
    rw [hmemory, hseen]
    obtain hbefore | hall := hready (hmemory ▸ hinitialized)
    · exact .inl (hw.baseline hbefore notice hnotice)
    · exact .inr (hall notice hnotice)
  · intro task htask kind hkind hnotice
    rw [hsent, List.mem_append] at hnotice
    obtain hold | hnew := hnotice
    · exact hw.never task htask kind hkind hold
    · obtain ⟨hinitialized, -, hfresh, hlisted⟩ := mem_sends_processInTurn.mp hnew
      by_cases htitle : kind = .abnormal ∧ task.conversationTitle = none
      · obtain ⟨rfl, htitle⟩ := htitle
        exact hpoll.titled hinitialized task htask hkind htitle (noticesOf_subset hdone hlisted)
      · refine hfresh (hw.baseline hinitialized _ (mem_noticesOf.mpr ⟨task, htask, ?_⟩))
        exact noticeOf_eq_some.mpr ⟨hkind, rfl, fun hk ht => htitle ⟨hk, ht⟩⟩
  · intro notice hnotice
    rw [hmemory, hseen] at hnotice
    rw [hsent, List.mem_append]
    by_cases hbefore : w.memory.Seen notice
    · obtain hfirst | hsentBefore | hdisabled := hw.explained notice hbefore
      · exact .inl hfirst
      · exact .inr (.inl (.inl hsentBefore))
      · exact .inr (.inr hdisabled)
    · have hlisted := hnotice.resolve_left hbefore
      cases hinitialized : w.memory.initialized with
      | true =>
          by_cases henabled : config.Enabled notice
          · exact .inr (.inl (.inr
              (mem_sends_processInTurn.mpr ⟨rfl, henabled, hbefore, hlisted⟩)))
          · exact .inr (.inr henabled)
      | false =>
          exact .inl ((hpoll.same hinitialized).1 (noticesOf_subset hdone hlisted))

theorem kept_poll (hw : Kept config first w) (hpoll : PollUndisturbed config first w tasks executed) :
    Kept config first (step config w (.poll tasks executed)) := by
  obtain ⟨done, hdone, hcame, -⟩ | ⟨hinitialized, hcame⟩ :=
    step_poll_cases hw.synced hpoll.saved
  · refine hw.cameTo hpoll hdone hcame (fun _ => seen_processInTurn) ?_ ?_
    · rw [initialized_processInTurn]
      exact .inl
    · rw [initialized_processInTurn]
      exact id
  · rw [← hinitialized] at hcame
    refine hw.cameTo hpoll List.prefix_rfl hcame (fun _ => seen_processInTurn) ?_
      (fun h => nomatch h)
    intro _
    right
    intro notice hnotice
    rw [mem_noticesOf_reverse]
    exact (hpoll.same hinitialized).2 hnotice

/-- After a completed poll, what it listed is seen. -/
theorem seen_of_completes (hsynced : w.memory = .load w.file)
    (hsaved : ∀ action ∈ ((poll config w.memory tasks).2.take executed).getLast?,
      action.isSend = false)
    (hcompletes : Completes config w tasks executed) {notice : Notice}
    (hnotice : notice ∈ noticesOf tasks) :
    (step config w (.poll tasks executed)).memory.Seen notice := by
  have hseen : (processInTurn config w.memory.initialized w.memory tasks.reverse).1.Seen notice :=
    seen_processInTurn.mpr (.inr (mem_noticesOf_reverse.mpr hnotice))
  obtain ⟨done, -, hcame, hdone⟩ | ⟨hinitialized, hcame⟩ := step_poll_cases hsynced hsaved
  · obtain ⟨rfl, -⟩ := hdone hcompletes
    rw [hcame.memory]
    exact hseen
  · rw [hinitialized] at hseen
    rw [hcame.memory]
    exact hseen

end Poll

/-! ## Runs -/

section Runs
variable {config : Config} {first : List TaskSnapshot} {events : List Event}

theorem kept_new : Kept config first .new where
  synced := rfl
  nodup := List.nodup_nil
  recorded _ h := nomatch h
  silent _ := rfl
  baseline h := nomatch h
  never _ _ _ _ h := nomatch h
  explained _ h := absurd h NotificationState.not_seen_default

theorem kept_step {w : World} (e : Event) (hw : Kept config first w)
    (he : Undisturbed config first w e) : Kept config first (step config w e) := by
  cases e with
  | poll tasks executed => exact kept_poll hw he
  | restart =>
      have hsame : step config w .restart = w := by
        rw [step, ← hw.synced]
      rw [hsame]
      exact hw

/-- Undisturbed polls announce what comes, once, and not what was there. -/
theorem announces_run {executed : ℕ}
    (h : Run.Each (step config) (Undisturbed config first) .new (.poll first executed :: events)) :
    Announces config first (.poll first executed :: events) := by
  have hkept : ∀ done, done <+: .poll first executed :: events →
      Kept config first (Run.run (step config) .new done) := by
    rintro done ⟨rest, hrest⟩
    rw [← hrest] at h
    exact Run.invariant_of_each (fun w e => kept_step e) kept_new (Run.each_append.mp h).1
  refine ⟨fun done hdone => (hkept done hdone).nodup, fun done hdone => (hkept done hdone).never, ?_⟩
  intro done tasks executed' hdone hcompletes task htask kind hkind htitle henabled hfirst
  have hpoll := Run.each_iff_forall_prefix.mp h done _ hdone
  have hlisted : (⟨task.taskRef, kind⟩ : Notice) ∈ noticesOf tasks :=
    mem_noticesOf.mpr ⟨task, htask, noticeOf_eq_some.mpr ⟨hkind, rfl, htitle⟩⟩
  have hbefore := hkept done ((List.prefix_append _ _).trans hdone)
  have hafter := hkept _ hdone
  have hseen := seen_of_completes hbefore.synced hpoll.saved hcompletes hlisted
  rw [← Run.run_snoc (step config)] at hseen
  obtain hin | hsent | hdisabled := hafter.explained _ hseen
  · obtain ⟨old, hold, hnotice⟩ := mem_noticesOf.mp hin
    obtain ⟨hkind', href, -⟩ := noticeOf_eq_some.mp hnotice
    exact absurd hkind' (hfirst old hold href)
  · exact hsent
  · refine absurd ?_ hdisabled
    by_cases hcompleted : kind = .completed
    · exact .inr (henabled hcompleted)
    · exact .inl hcompleted

end Runs

/-! ## One task -/

/-- A task with a title, an outcome and an integrity. -/
def listed (conversationTitle : Option String) (terminal : Option TerminalOutcome)
    (integrity : IntegrityState) : TaskSnapshot where
  taskRef := "s:t:u"
  identity := { provider := "codex", sessionId := "s", threadId := "t", turnId := "u" }
  codex := { requestKind := "turn", parentTurnId := none, rootTurnId := none }
  conversationTitle
  sequence := 1
  phase := if terminal.isSome then .terminal else .running
  terminal
  integrity
  model := none
  attemptCount := 1
  toolNames := []
  responseIds := []
  usage := .zero
  startedAtMs := 1
  updatedAtMs := 2
  completedAtMs := terminal.map fun _ => 2
  lastError := none

/-- The task is completed after the first poll; the first send fails. -/
theorem announces_completed : Announces ⟨some true⟩ [listed none none .complete]
    [.poll [listed none none .complete] 1, .poll [listed none (some .completed) .complete] 0,
      .restart, .poll [listed none (some .completed) .complete] 2] :=
  announces_run (by decide)

/-- At the first poll the task is degraded and has no title; then it gets one. -/
theorem not_announces_titled :
    ¬ ∀ (config : Config) (first : List TaskSnapshot) (executed : ℕ) (events : List Event),
      Announces config first (.poll first executed :: events) := by
  intro h
  have hannounces := h ⟨none⟩ [listed none none .degraded] 1
    [.poll [listed (some "title") none .degraded] 2]
  exact hannounces.never _ List.prefix_rfl (listed none none .degraded) (by decide) .abnormal rfl
    (by decide)

end Codexwatch.Notifier
