import Mathlib.Data.List.Basic
import Mathlib.Data.List.Induction
import Mathlib.Data.List.Chain

/-!
# Validators as sequences of checks

A validator runs its checks in order and returns the first violation. The lemmas
turn `validate = .ok ()` into the conjunction of what was checked.

A loop over a list that remembers what it has seen (a set of identifiers, the last
sequence number) is a check of each element against the elements before it.

## Main definitions

* `ensure c e` — one check.
* `required o e` — a value that must be there.
* `whenSome o f` — a check of an optional value.
* `eachAfter f seen l` — a check of each element against those before it.
-/
namespace Check

universe u v

variable {ε ε' : Type u} {α β : Type v}

/-- Fails with `e` unless `c` holds. -/
def ensure (c : Prop) [Decidable c] (e : ε) : Except ε Unit := if c then .ok () else .error e

/-- Fails with `e` on an absent value. -/
def required (o : Option α) (e : ε) : Except ε α :=
  match o with
  | none => .error e
  | some a => .ok a

/-- `if let Some(a) = o { f(a)?; }` -/
def whenSome (o : Option α) (f : α → Except ε Unit) : Except ε Unit :=
  match o with
  | none => .ok ()
  | some a => f a

/-- Checks every element against the elements before it. -/
def eachAfter (f : List α → α → Except ε Unit) (seen : List α) : List α → Except ε Unit
  | [] => .ok ()
  | x :: xs => do
      f seen x
      eachAfter f (seen ++ [x]) xs

@[simp] theorem ensure_eq_ok {c : Prop} [Decidable c] {e : ε} : ensure c e = .ok () ↔ c := by
  by_cases h : c <;> simp [ensure, h]

@[simp] theorem required_eq_ok {o : Option α} {e : ε} {a : α} :
    required o e = .ok a ↔ o = some a := by
  cases o <;> simp [required]

@[simp] theorem bind_eq_ok {x : Except ε α} {f : α → Except ε β} {b : β} :
    (x >>= f) = .ok b ↔ ∃ a, x = .ok a ∧ f a = .ok b := by
  cases x <;> simp [bind, Except.bind]

@[simp] theorem pure_eq_ok {a b : α} : (pure a : Except ε α) = .ok b ↔ a = b := by
  simp [pure, Except.pure]

@[simp] theorem exists_unit_and {p : Unit → Prop} {q : Unit → Prop} :
    (∃ u, p u ∧ q u) ↔ p () ∧ q () := ⟨fun ⟨_, h⟩ => h, fun h => ⟨(), h⟩⟩

@[simp] theorem exists_unit_eq_ok {x : Except ε Unit} : (∃ u, x = .ok u) ↔ x = .ok () :=
  ⟨fun ⟨_, h⟩ => h, fun h => ⟨(), h⟩⟩

@[simp] theorem mapError_eq_ok {x : Except ε α} {f : ε → ε'} {a : α} :
    x.mapError f = .ok a ↔ x = .ok a := by
  cases x <;> simp [Except.mapError]

@[simp] theorem whenSome_none {f : α → Except ε Unit} : whenSome none f = .ok () := rfl
@[simp] theorem whenSome_some {a : α} {f : α → Except ε Unit} : whenSome (some a) f = f a := rfl

@[simp] theorem map_eq_ok {x : Except ε α} {f : α → β} {b : β} :
    x.map f = .ok b ↔ ∃ a, x = .ok a ∧ f a = b := by
  cases x <;> simp [Except.map]

theorem map_eq_map_iff {f : α → β} (hf : Function.Injective f) {x y : Except ε α} :
    x.map f = y.map f ↔ x = y := by
  cases x <;> cases y <;> simp [Except.map, hf.eq_iff]

theorem ite_error_eq_ok {c : Prop} [Decidable c] {e : ε} {x : Except ε α} {a : α} :
    (if c then .error e else x) = .ok a ↔ ¬ c ∧ x = .ok a := by
  by_cases h : c <;> simp [h]

/-! ## Failure above a state

A computation that fails keeps the state it has reached. -/

section State

variable {ε σ α β : Type} {s : σ}

@[simp] theorem run_get : (get : ExceptT ε (StateM σ) σ).run = Except.ok <$> get := rfl

@[simp] theorem run_modify {f : σ → σ} :
    (modify f : ExceptT ε (StateM σ) PUnit).run = Except.ok <$> modify f := rfl

@[simp] theorem run_liftExcept {x : Except ε α} :
    (liftExcept x : ExceptT ε (StateM σ) α).run = pure x := by
  cases x <;> rfl

/-- The first element that fails ends the loop. -/
theorem run_forM_cons {f : α → ExceptT ε (StateM σ) PUnit} {a : α} {l : List α} :
    (forM (a :: l) f).run.run s =
      match (f a).run.run s with
      | (.ok _, s') => (forM l f).run.run s'
      | (.error e, s') => (.error e, s') := by
  rw [List.forM_cons, ExceptT.run_bind, StateT.run_bind]
  rcases (f a).run.run s with ⟨result, s'⟩
  cases result <;> rfl

end State

theorem whenSome_eq_ok {o : Option α} {f : α → Except ε Unit} :
    whenSome o f = .ok () ↔ ∀ a, o = some a → f a = .ok () := by
  cases o <;> simp

/-- A loop of which no element fails. -/
theorem mapM_eq_ok_map {f : α → Except ε β} {g : α → β} {l : List α}
    (h : ∀ a ∈ l, f a = .ok (g a)) : l.mapM f = .ok (l.map g) := by
  induction l with
  | nil => rfl
  | cons a l ih =>
      rw [List.forall_mem_cons] at h
      rw [List.mapM_cons, h.1, ih h.2]
      rfl

/-- What a loop collects, it got from an element. -/
theorem exists_of_mem_mapM {f : α → Except ε β} {l : List α} {bs : List β}
    (h : l.mapM f = .ok bs) {b : β} (hb : b ∈ bs) : ∃ a ∈ l, f a = .ok b := by
  induction l generalizing bs with
  | nil =>
      rw [List.mapM_nil, pure_eq_ok] at h
      rw [← h] at hb
      simp at hb
  | cons a l ih =>
      rw [List.mapM_cons] at h
      simp only [bind_eq_ok, pure_eq_ok] at h
      obtain ⟨first, hfirst, rest, hrest, rfl⟩ := h
      rw [List.mem_cons] at hb
      obtain rfl | hb := hb
      · exact ⟨a, by simp, hfirst⟩
      · obtain ⟨a', ha', hf⟩ := ih hrest hb
        exact ⟨a', by simp [ha'], hf⟩

/-- What an element gives, a loop collects. -/
theorem exists_mem_of_mapM {f : α → Except ε β} {l : List α} {bs : List β}
    (h : l.mapM f = .ok bs) {a : α} (ha : a ∈ l) : ∃ b ∈ bs, f a = .ok b := by
  induction l generalizing bs with
  | nil => cases ha
  | cons first l ih =>
      rw [List.mapM_cons] at h
      simp only [bind_eq_ok, pure_eq_ok] at h
      obtain ⟨b, hb, rest, hrest, rfl⟩ := h
      obtain rfl | ha := List.mem_cons.mp ha
      · exact ⟨b, by simp, hb⟩
      · obtain ⟨b', hb', hf⟩ := ih hrest ha
        exact ⟨b', by simp [hb'], hf⟩

/-- Every element passes its check against those before it. -/
theorem eachAfter_eq_ok {f : List α → α → Except ε Unit} {seen l : List α} :
    eachAfter f seen l = .ok () ↔
      ∀ pre x post, l = pre ++ x :: post → f (seen ++ pre) x = .ok () := by
  induction l generalizing seen with
  | nil => simp [eachAfter]
  | cons y l ih =>
      rw [eachAfter, bind_eq_ok, exists_unit_and, ih]
      constructor
      · rintro ⟨hy, hl⟩ pre x post hsplit
        cases pre with
        | nil =>
            obtain ⟨rfl, -⟩ := List.cons_eq_cons.mp hsplit
            simpa using hy
        | cons z pre =>
            obtain ⟨rfl, hrest⟩ := List.cons_eq_cons.mp hsplit
            have hx := hl pre x post hrest
            rwa [List.append_assoc] at hx
      · intro h
        refine ⟨by simpa using h [] y l rfl, ?_⟩
        intro pre x post hsplit
        have hx := h (y :: pre) x post (by rw [hsplit]; rfl)
        rwa [List.append_assoc]

/-- A check of an element by itself and a check against those before it. -/
theorem eachAfter_eq_ok_iff {f : List α → α → Except ε Unit} {p : α → Prop}
    {q : List α → α → Prop} {l : List α} (hf : ∀ seen x, f seen x = .ok () ↔ p x ∧ q seen x) :
    eachAfter f [] l = .ok () ↔
      (∀ x ∈ l, p x) ∧ ∀ pre x post, l = pre ++ x :: post → q pre x := by
  rw [eachAfter_eq_ok]
  simp only [List.nil_append, hf]
  constructor
  · intro h
    refine ⟨fun x hx => ?_, fun pre x post hl => (h pre x post hl).2⟩
    obtain ⟨pre, post, hl⟩ := List.append_of_mem hx
    exact (h pre x post hl).1
  · rintro ⟨hp, hq⟩ pre x post hl
    exact ⟨hp x (by simp [hl]), hq pre x post hl⟩

/-- No element's key occurs before it, as a set insertion checks. -/
theorem nodup_map_iff_split {f : α → β} {l : List α} :
    (l.map f).Nodup ↔ ∀ pre x post, l = pre ++ x :: post → f x ∉ pre.map f := by
  constructor
  · rintro h pre x post rfl
    rw [List.map_append, List.nodup_append] at h
    exact fun hmem => h.2.2 _ hmem (f x) (by simp) rfl
  · intro h
    induction l using List.reverseRecOn with
    | nil => exact List.nodup_nil
    | append_singleton l x ih =>
        rw [List.map_append, List.nodup_append]
        refine ⟨ih fun pre y post hl => ?_, by simp, ?_⟩
        · exact h pre y (post ++ [x]) (by rw [hl]; simp)
        · intro a ha b hb
          rw [List.map_singleton, List.mem_singleton] at hb
          rintro rfl
          exact h l x [] rfl (hb ▸ ha)

/-- Every element is related to the one just before it. -/
theorem isChain_iff_split {r : α → α → Prop} {l : List α} :
    l.IsChain r ↔ ∀ pre x post, l = pre ++ x :: post → ∀ y, pre.getLast? = some y → r y x := by
  constructor
  · rintro h pre x post rfl y hy
    obtain ⟨pre', rfl⟩ := List.getLast?_eq_some_iff.mp hy
    rw [List.append_assoc, List.singleton_append] at h
    exact (List.isChain_cons_cons.mp (List.isChain_append.mp h).2.1).1
  · intro h
    induction l using List.reverseRecOn with
    | nil => exact List.isChain_nil
    | append_singleton l x ih =>
        rw [List.isChain_append]
        refine ⟨ih fun pre y post hl => ?_, List.isChain_singleton x, ?_⟩
        · exact h pre y (post ++ [x]) (by rw [hl]; simp)
        · intro y hy z hz
          obtain rfl : x = z := by simpa using hz
          exact h l x [] rfl y hy

end Check
