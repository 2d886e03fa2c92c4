import Mathlib.Data.List.Nodup
import Codexwatch.Lib.Run
import Codexwatch.Protocol.State

/-!
# What the reducer accumulates

Identifiers and tool names are appended once, attempts are counted, and a known model
stays known. The usage is overwritten, also by an event that carries none: the usage of
a snapshot is that of its last event.

## Main definitions

* `Accumulates` — what a list of events leaves of what was there.
* `accumulates_iff` — it does, unless an event without usage follows one with usage.
-/
namespace Codexwatch.Protocol

/-- No counter of the one is greater than in the other. -/
structure UsageSummary.AtMost (u v : UsageSummary) : Prop where
  input : u.inputTokens ≤ v.inputTokens
  output : u.outputTokens ≤ v.outputTokens
  reasoning : u.reasoningTokens ≤ v.reasoningTokens
  total : u.totalTokens ≤ v.totalTokens

theorem UsageSummary.atMost_zero_iff {u : UsageSummary} : u.AtMost .zero ↔ u = .zero := by
  constructor
  · intro h
    obtain ⟨input, output, reasoning, total⟩ := u
    obtain ⟨hinput, houtput, hreasoning, htotal⟩ := h
    simp only [zero, Nat.le_zero] at hinput houtput hreasoning htotal
    simp [zero, hinput, houtput, hreasoning, htotal]
  · rintro rfl
    exact ⟨le_rfl, le_rfl, le_rfl, le_rfl⟩

namespace TaskReducer

/-! ## Appending what is new -/

section Items
variable {items : List String} {item : String}

theorem prefix_pushNew (items : List String) (item : String) : items <+: pushNew items item := by
  rw [pushNew]
  split
  · exact List.prefix_rfl
  · exact List.prefix_append items [item]

theorem mem_pushNew {x : String} : x ∈ pushNew items item ↔ x ∈ items ∨ x = item := by
  rw [pushNew]
  split
  · rename_i hold
    constructor
    · exact .inl
    · rintro (hx | rfl)
      · exact hx
      · exact hold
  · simp

theorem nodup_pushNew (h : items.Nodup) : (pushNew items item).Nodup := by
  rw [pushNew]
  split
  · exact h
  · rename_i hnew
    rw [← List.concat_eq_append]
    exact List.Nodup.concat hnew h

/-- Items extended by others: nothing is moved, repeated or lost. -/
structure Extended (items added result : List String) : Prop where
  start : items <+: result
  nodup : items.Nodup → result.Nodup
  mem : ∀ x, x ∈ result ↔ x ∈ items ∨ x ∈ added

theorem Extended.refl (items : List String) : Extended items [] items :=
  ⟨List.prefix_rfl, id, by simp⟩

theorem Extended.trans {added added' middle result : List String}
    (h : Extended items added middle) (h' : Extended middle added' result) :
    Extended items (added ++ added') result where
  start := h.start.trans h'.start
  nodup := h'.nodup ∘ h.nodup
  mem x := by rw [h'.mem, h.mem, List.mem_append, or_assoc]

theorem extended_foldl_pushNew (items added : List String) :
    Extended items added (added.foldl pushNew items) := by
  induction added generalizing items with
  | nil => exact .refl items
  | cons item added ih =>
      have hitem : Extended items [item] (pushNew items item) :=
        ⟨prefix_pushNew items item, nodup_pushNew, by simp [mem_pushNew]⟩
      exact hitem.trans (ih (pushNew items item))

end Items

/-! ## Lists of events -/

variable {snapshot : TaskSnapshot} {event : TaskEvent} {events done rest : List TaskEvent}
  {reducer : TaskReducer}

theorem updates_cons : updates snapshot (event :: events) = updates (update snapshot event) events :=
  rfl

theorem updates_snoc : updates snapshot (events ++ [event]) = update (updates snapshot events) event :=
  List.foldl_concat ..

theorem usage_update : (update snapshot event).usage = event.usage := by
  rw [update_eq]

/-- A list that is applied as a whole is applied in its parts. -/
theorem run_applyAll_append {start : TaskReducer}
    (hrun : (applyAll (done ++ rest)).run.run start = (.ok (), reducer)) :
    (applyAll done).run.run start = (.ok (), ⟨updates start.snapshot done⟩) ∧
      (applyAll rest).run.run ⟨updates start.snapshot done⟩ = (.ok (), reducer) := by
  induction done generalizing start with
  | nil => exact ⟨rfl, hrun⟩
  | cons event done ih =>
      rw [List.cons_append, run_applyAll_cons] at hrun
      rw [run_applyAll_cons]
      cases hcheck : check start.snapshot event with
      | error e =>
          rw [hcheck] at hrun
          cases hrun
      | ok u =>
          rw [hcheck] at hrun
          exact ih hrun

theorem snapshot_of_run {start : TaskReducer}
    (hrun : (applyAll events).run.run start = (.ok (), reducer)) :
    reducer = ⟨updates start.snapshot events⟩ := by
  rw [← List.append_nil events] at hrun
  have hrest := (run_applyAll_append hrun).2
  exact (Prod.mk.inj hrest).2.symm

/-- The response ids that an event carries. -/
theorem extended_responseIds (snapshot : TaskSnapshot) (events : List TaskEvent) :
    Extended snapshot.responseIds (events.flatMap fun e => e.responseId.toList)
      (updates snapshot events).responseIds := by
  induction events generalizing snapshot with
  | nil => exact .refl _
  | cons event events ih =>
      have hevent := extended_foldl_pushNew snapshot.responseIds event.responseId.toList
      have hrest := ih (update snapshot event)
      rw [update_eq] at hrest
      rw [updates_cons, update_eq, List.flatMap_cons]
      exact hevent.trans hrest

theorem extended_toolNames (snapshot : TaskSnapshot) (events : List TaskEvent) :
    Extended snapshot.toolNames (events.flatMap TaskEvent.toolNames)
      (updates snapshot events).toolNames := by
  induction events generalizing snapshot with
  | nil => exact .refl _
  | cons event events ih =>
      have hevent := extended_foldl_pushNew snapshot.toolNames event.toolNames
      have hrest := ih (update snapshot event)
      rw [update_eq] at hrest
      rw [updates_cons, update_eq, List.flatMap_cons]
      exact hevent.trans hrest

/-- Attempts are counted up to the largest `u32`. -/
theorem attemptCount_updates (hcount : snapshot.attemptCount ≤ U32_MAX) :
    (updates snapshot events).attemptCount =
      min (snapshot.attemptCount + events.countP fun e => e.kind = .attemptStarted) U32_MAX := by
  induction events generalizing snapshot with
  | nil => simpa [updates] using hcount
  | cons event events ih =>
      rw [updates_cons, List.countP_cons]
      by_cases hkind : event.kind = .attemptStarted
      · have hnext : (update snapshot event).attemptCount =
            min (snapshot.attemptCount + 1) U32_MAX := by rw [update_eq, if_pos hkind]
        rw [ih (by rw [hnext]; exact min_le_right ..), hnext, decide_eq_true hkind, if_pos rfl]
        omega
      · have hnext : (update snapshot event).attemptCount = snapshot.attemptCount := by
          rw [update_eq, if_neg hkind]
        rw [ih (hnext ▸ hcount), hnext, decide_eq_false hkind, if_neg (by simp)]
        rfl

theorem isSome_model_updates (h : snapshot.model.isSome) : (updates snapshot events).model.isSome := by
  induction events generalizing snapshot with
  | nil => exact h
  | cons event events ih =>
      rw [updates_cons]
      apply ih
      rw [update_eq, Option.isSome_or, h, Bool.or_true]

/-! ## What a list leaves of what was there -/

/-- What the events leave of the snapshot, and of the usage after each part of them. -/
structure Accumulates (snapshot : TaskSnapshot) (events : List TaskEvent) (result : TaskSnapshot) :
    Prop where
  responseIds : Extended snapshot.responseIds (events.flatMap fun e => e.responseId.toList)
    result.responseIds
  toolNames : Extended snapshot.toolNames (events.flatMap TaskEvent.toolNames) result.toolNames
  attempts : result.attemptCount =
    min (snapshot.attemptCount + events.countP fun e => e.kind = .attemptStarted) U32_MAX
  model : snapshot.model.isSome → result.model.isSome
  usage : ∀ done event before after, done ++ [event] <+: events → event.usage = .zero →
    (applyAll done).run.run ⟨snapshot⟩ = (.ok (), before) →
    (applyAll (done ++ [event])).run.run ⟨snapshot⟩ = (.ok (), after) →
    before.snapshot.usage.AtMost after.snapshot.usage

/-- No event without usage comes after usage. -/
def UsageLast (snapshot : TaskSnapshot) (events : List TaskEvent) : Prop :=
  (snapshot.usage :: events.map TaskEvent.usage).IsChain fun u v => v = .zero → u = .zero

instance (snapshot : TaskSnapshot) (events : List TaskEvent) :
    Decidable (UsageLast snapshot events) := inferInstanceAs (Decidable (List.IsChain ..))

theorem usageLast_iff : UsageLast snapshot events ↔
    Run.Each update (fun s e => e.usage = .zero → s.usage = .zero) snapshot events := by
  induction events generalizing snapshot with
  | nil => simp [UsageLast]
  | cons event events ih =>
      rw [Run.each_cons, ← ih, UsageLast, UsageLast, List.map_cons, List.isChain_cons_cons,
        usage_update]

/-- The reducer accumulates all but the usage, which the last event sets. -/
theorem accumulates_iff (hcount : snapshot.attemptCount ≤ U32_MAX)
    (hrun : (applyAll events).run.run ⟨snapshot⟩ = (.ok (), reducer)) :
    Accumulates snapshot events reducer.snapshot ↔ UsageLast snapshot events := by
  obtain rfl := snapshot_of_run hrun
  rw [usageLast_iff, Run.each_iff_forall_prefix]
  constructor
  · intro h done event hstart hzero
    have hpart : (applyAll (done ++ [event])).run.run ⟨snapshot⟩ =
        (.ok (), ⟨updates snapshot (done ++ [event])⟩) := by
      obtain ⟨rest, rfl⟩ := hstart
      exact (run_applyAll_append hrun).1
    have husage := h.usage done event _ _ hstart hzero (run_applyAll_append hpart).1 hpart
    rw [updates_snoc, usage_update, hzero, UsageSummary.atMost_zero_iff] at husage
    exact husage
  · intro h
    refine ⟨extended_responseIds snapshot events, extended_toolNames snapshot events,
      attemptCount_updates hcount, isSome_model_updates, ?_⟩
    intro done event before after hstart hzero hbefore hafter
    obtain rfl := snapshot_of_run hbefore
    obtain rfl := snapshot_of_run hafter
    rw [updates_snoc, usage_update, hzero, UsageSummary.atMost_zero_iff]
    exact h done event hstart hzero

/-- A turn without usage. -/
theorem accumulates_turn : ∃ reducer, (applyAll turnEvents).run.run ⟨observedSnapshot⟩ =
    (.ok (), reducer) ∧ Accumulates observedSnapshot turnEvents reducer.snapshot := by
  have happlicable : Applicable observedSnapshot turnEvents :=
    ⟨by decide +kernel, by decide +kernel, by decide +kernel, by decide +kernel,
      by decide +kernel, by decide +kernel⟩
  obtain ⟨-, hrun⟩ | ⟨hnot, -⟩ :=
    @run_applyAll observedSnapshot turnEvents (by decide +kernel) (by decide)
  · exact ⟨_, hrun, (accumulates_iff (by decide) hrun).mpr (by decide)⟩
  · exact absurd happlicable hnot

/-- An event with usage, and a capture gap. -/
def measuredEvents : List TaskEvent :=
  [{ plainEvent 1 .attemptCompleted .running with usage := ⟨5, 7, 0, 12⟩ },
    plainEvent 2 .captureGap .running]

/-- The gap sets the usage to zero. -/
theorem not_accumulates_gap :
    ¬ ∀ (snapshot : TaskSnapshot) (events : List TaskEvent) (reducer : TaskReducer),
      snapshot.validate = .ok () →
      (applyAll events).run.run ⟨snapshot⟩ = (.ok (), reducer) →
      Accumulates snapshot events reducer.snapshot := by
  intro h
  have happlicable : Applicable observedSnapshot measuredEvents :=
    ⟨by decide +kernel, by decide +kernel, by decide +kernel, by decide +kernel,
      by decide +kernel, by decide +kernel⟩
  obtain ⟨-, hrun⟩ | ⟨hnot, -⟩ :=
    @run_applyAll observedSnapshot measuredEvents (by decide +kernel) (by decide)
  · have haccumulates := h _ _ _ (by decide +kernel) hrun
    have hparts := @run_applyAll_append [measuredEvents[0]] [measuredEvents[1]] _ _ hrun
    have husage := haccumulates.usage _ _ _ _ List.prefix_rfl rfl hparts.1 hrun
    exact absurd husage.input (by decide)
  · exact absurd happlicable hnot

end TaskReducer

end Codexwatch.Protocol
