import Mathlib.Data.List.Basic
import Mathlib.Data.List.Induction

/-!
# Runs of a deterministic system

A system takes one step for each event of a list. Nondeterminism (the order of
messages, their loss and repetition, the clock) is in the choice of the list.

## Main definitions

* `run step s es` — the state after the events.
* `Each step P s es` — every event of the run meets `P` in the state it finds.
* `Meets step P s es` — some event of the run does.
* `trace step emit s es` — the events of another system that a run amounts to.
-/
namespace Run

universe u v

variable {σ : Type u} {ε : Type v} (step : σ → ε → σ)

def run (s : σ) (es : List ε) : σ := es.foldl step s

@[simp] theorem run_nil (s : σ) : run step s [] = s := rfl

@[simp] theorem run_cons (s : σ) (e : ε) (es : List ε) :
    run step s (e :: es) = run step (step s e) es := rfl

theorem run_append (s : σ) (es es' : List ε) :
    run step s (es ++ es') = run step (run step s es) es' := List.foldl_append ..

@[simp] theorem run_snoc (s : σ) (es : List ε) (e : ε) :
    run step s (es ++ [e]) = step (run step s es) e := by rw [run_append, run_cons, run_nil]

/-- Every event of the run meets `P` in the state it finds. -/
def Each (P : σ → ε → Prop) : σ → List ε → Prop
  | _, [] => True
  | s, e :: es => P s e ∧ Each P (step s e) es

/-- Some event of the run meets `P` in the state it finds. -/
def Meets (P : σ → ε → Prop) (s : σ) (es : List ε) : Prop :=
  ∃ done e, done ++ [e] <+: es ∧ P (run step s done) e

variable {step} {P : σ → ε → Prop} {I : σ → Prop} {s : σ}

instance decidableEach [∀ s e, Decidable (P s e)] : ∀ s es, Decidable (Each step P s es)
  | _, [] => inferInstanceAs (Decidable True)
  | s, e :: es =>
      have := decidableEach (step s e) es
      inferInstanceAs (Decidable (P s e ∧ Each step P (step s e) es))

@[simp] theorem each_nil : Each step P s [] := trivial

@[simp] theorem each_cons {e : ε} {es : List ε} :
    Each step P s (e :: es) ↔ P s e ∧ Each step P (step s e) es := Iff.rfl

theorem each_append {es es' : List ε} :
    Each step P s (es ++ es') ↔ Each step P s es ∧ Each step P (run step s es) es' := by
  induction es generalizing s with
  | nil => simp
  | cons e es ih => simp [ih, and_assoc]

theorem Each.mono {Q : σ → ε → Prop} {es : List ε} (h : Each step P s es)
    (himp : ∀ s e, P s e → Q s e) : Each step Q s es := by
  induction es generalizing s with
  | nil => trivial
  | cons e es ih => exact ⟨himp s e h.1, ih h.2⟩

theorem Each.and {Q : σ → ε → Prop} {es : List ε} (h : Each step P s es)
    (h' : Each step Q s es) : Each step (fun s e => P s e ∧ Q s e) s es := by
  induction es generalizing s with
  | nil => trivial
  | cons e es ih => exact ⟨⟨h.1, h'.1⟩, ih h.2 h'.2⟩

theorem each_snoc {es : List ε} {e : ε} :
    Each step P s (es ++ [e]) ↔ Each step P s es ∧ P (run step s es) e := by
  rw [each_append, each_cons]
  simp

/-- Every event, with the run before it. -/
theorem each_iff_forall_prefix {es : List ε} :
    Each step P s es ↔ ∀ done e, done ++ [e] <+: es → P (run step s done) e := by
  constructor
  · intro h done e hstart
    obtain ⟨rest, rfl⟩ := hstart
    exact (each_snoc.mp (each_append.mp h).1).2
  · intro h
    induction es using List.reverseRecOn with
    | nil => trivial
    | append_singleton es e ih =>
        rw [each_snoc]
        exact ⟨ih fun done e' hstart => h done e' (hstart.trans (List.prefix_append es [e])),
          h es e List.prefix_rfl⟩

theorem Meets.of_prefix {es es' : List ε} (h : Meets step P s es) (hstart : es <+: es') :
    Meets step P s es' := by
  obtain ⟨done, e, hdone, he⟩ := h
  exact ⟨done, e, hdone.trans hstart, he⟩

/-- What the rest of a run meets, the run meets. -/
theorem Meets.cons {e : ε} {es : List ε} (h : Meets step P (step s e) es) :
    Meets step P s (e :: es) := by
  obtain ⟨done, last, hstart, hlast⟩ := h
  exact ⟨e :: done, last, List.cons_prefix_cons.mpr ⟨rfl, hstart⟩, hlast⟩

theorem Meets.exists_mem {es : List ε} (h : Meets step P s es) : ∃ s', ∃ e ∈ es, P s' e := by
  obtain ⟨done, e, hstart, he⟩ := h
  exact ⟨_, e, hstart.subset (by simp), he⟩

/-- Every event is met in some state. -/
theorem Each.meets_of_mem {Q : σ → ε → Prop} {es : List ε} (h : Each step P s es) {e : ε}
    (he : e ∈ es) (himp : ∀ s, P s e → Q s e) : Meets step Q s es := by
  obtain ⟨before, after, rfl⟩ := List.append_of_mem he
  rw [each_append, each_cons] at h
  exact ⟨before, e, ⟨after, by simp⟩, himp _ h.2.1⟩

theorem meets_snoc {es : List ε} {e : ε} :
    Meets step P s (es ++ [e]) ↔ Meets step P s es ∨ P (run step s es) e := by
  constructor
  · intro ⟨done, last, hstart, hlast⟩
    obtain heq | hbefore := List.prefix_concat_iff.mp hstart
    · obtain ⟨rfl, rfl⟩ := List.append_singleton_inj.mp heq
      exact .inr hlast
    · exact .inl ⟨done, last, hbefore, hlast⟩
  · intro h
    cases h with
    | inl hbefore => exact hbefore.of_prefix (List.prefix_append es [e])
    | inr hlast => exact ⟨es, e, List.prefix_rfl, hlast⟩

/-- What every step that meets `P` preserves holds after the run. -/
theorem invariant_of_each (hstep : ∀ s e, I s → P s e → I (step s e)) {es : List ε} (hs : I s)
    (hes : Each step P s es) : I (run step s es) := by
  induction es generalizing s with
  | nil => exact hs
  | cons e es ih => exact ih (hstep s e hs hes.1) hes.2

/-- Under an invariant that `P` preserves, `P` may be weakened to what the two imply. -/
theorem Each.mono_of_invariant {Q : σ → ε → Prop} (hstep : ∀ s e, I s → P s e → I (step s e))
    (himp : ∀ s e, I s → P s e → Q s e) {es : List ε} (hs : I s) (hes : Each step P s es) :
    Each step Q s es := by
  induction es generalizing s with
  | nil => trivial
  | cons e es ih => exact ⟨himp s e hs hes.1, ih (hstep s e hs hes.1) hes.2⟩

/-- Under an invariant that `P` preserves, `P` and `Q` may be told apart event by event. -/
theorem each_iff_of_invariant {Q : σ → ε → Prop} (hstep : ∀ s e, I s → P s e → I (step s e))
    (hiff : ∀ s e, I s → (P s e ↔ Q s e)) {es : List ε} (hs : I s) :
    Each step P s es ↔ Each step Q s es := by
  induction es generalizing s with
  | nil => simp
  | cons e es ih =>
      rw [each_cons, each_cons, ← hiff s e hs]
      constructor
      · intro ⟨he, hes⟩
        exact ⟨he, (ih (hstep s e hs he)).mp hes⟩
      · intro ⟨he, hes⟩
        exact ⟨he, (ih (hstep s e hs he)).mpr hes⟩

/-- What every round of a loop preserves holds at its end, if it gets there. -/
theorem invariant_foldlM {α β : Type*} {f : β → α → Option β} {J : β → Prop}
    (hf : ∀ b a b', J b → f b a = some b' → J b') {l : List α} {b b' : β} (hb : J b)
    (h : l.foldlM f b = some b') : J b' := by
  induction l generalizing b with
  | nil =>
      obtain rfl : b = b' := by simpa using h
      exact hb
  | cons a l ih =>
      rw [List.foldlM_cons] at h
      obtain ⟨middle, hmiddle, hrest⟩ := Option.bind_eq_some_iff.mp h
      exact ih (hf b a middle hb hmiddle) hrest

/-- What every step preserves holds after every run. -/
theorem invariant (hstep : ∀ s e, I s → I (step s e)) (hs : I s) (es : List ε) :
    I (run step s es) := by
  induction es generalizing s with
  | nil => exact hs
  | cons e es ih => exact ih (hstep s e hs)

/-! ## Simulation -/

section Simulation

variable {σ' : Type*} {ε' : Type*} {step' : σ' → ε' → σ'} {view : σ → σ'}
  {emit : σ → ε → List ε'}

variable (step emit) in
/-- Each event of the run as the events it is for the other system. -/
def trace : σ → List ε → List ε'
  | _, [] => []
  | s, e :: es => emit s e ++ trace (step s e) es

theorem trace_append (s : σ) (es es' : List ε) :
    trace step emit s (es ++ es') =
      trace step emit s es ++ trace step emit (run step s es) es' := by
  induction es generalizing s with
  | nil => rfl
  | cons e es ih => rw [List.cons_append, trace, trace, ih, List.append_assoc, run_cons]

/-- When every step is seen as the events it emits, every run is. -/
theorem view_run (hstep : ∀ s e, P s e → view (step s e) = run step' (view s) (emit s e))
    {es : List ε} (hes : Each step P s es) :
    view (run step s es) = run step' (view s) (trace step emit s es) := by
  induction es generalizing s with
  | nil => rfl
  | cons e es ih => rw [run_cons, ih hes.2, hstep s e hes.1, trace, run_append]

/-- What every step is for the events it emits, every run is for those of its trace. -/
theorem each_trace {Q : σ' → ε' → Prop}
    (hstep : ∀ s e, view (step s e) = run step' (view s) (emit s e))
    (hemit : ∀ s e, P s e → Each step' Q (view s) (emit s e)) {es : List ε}
    (hes : Each step P s es) : Each step' Q (view s) (trace step emit s es) := by
  induction es generalizing s with
  | nil => trivial
  | cons e es ih =>
      rw [trace, each_append, ← hstep]
      exact ⟨hemit s e hes.1, ih hes.2⟩

end Simulation

end Run
