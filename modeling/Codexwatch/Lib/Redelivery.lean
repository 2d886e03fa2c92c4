import Mathlib.Data.List.Basic
import Mathlib.Data.List.Induction
import Mathlib.Data.List.Pairwise
import Mathlib.Order.Basic
import Mathlib.Order.Nat

/-!
# A register written once by each of several senders

Values reach a register in any order and any number of times, and only the first
delivery of each value writes it. The register then holds the last value that was
delivered for the first time, whatever the ranks of the values.

## Main definitions

* `held ds` — the value after the deliveries `ds`.
* `NeverDecreases rank ds` — no delivery lowers the rank of the value held.
* `FirstsIncrease rank ds` — the first deliveries come in increasing rank.
-/
namespace Redelivery

universe u

variable {δ : Type u} [DecidableEq δ]

/-- The value of the last first delivery. -/
def held (ds : List δ) : Option δ := ds.eraseDups.getLast?

theorem eraseDups_snoc (ds : List δ) (d : δ) :
    (ds ++ [d]).eraseDups = ds.eraseDups ++ if d ∈ ds then [] else [d] := by
  rw [List.eraseDups_append]
  by_cases h : d ∈ ds <;> simp [List.removeAll, h, List.eraseDups_cons]

@[simp] theorem held_nil : held ([] : List δ) = none := rfl

theorem held_snoc_of_mem {ds : List δ} {d : δ} (h : d ∈ ds) : held (ds ++ [d]) = held ds := by
  rw [held, eraseDups_snoc, if_pos h, List.append_nil, held]

@[simp] theorem held_snoc_of_not_mem {ds : List δ} {d : δ} (h : d ∉ ds) :
    held (ds ++ [d]) = some d := by
  rw [held, eraseDups_snoc, if_neg h, List.getLast?_concat]

theorem mem_of_held {ds : List δ} {d : δ} (h : held ds = some d) : d ∈ ds :=
  List.mem_eraseDups.mp (List.mem_of_getLast? h)

/-- No delivery lowers the rank of the value held. -/
def NeverDecreases (rank : δ → ℕ) (ds : List δ) : Prop :=
  ∀ pre d post, ds = pre ++ d :: post → ∀ old, held pre = some old →
    ∃ new, held (pre ++ [d]) = some new ∧ rank old ≤ rank new

/-- The first deliveries come in increasing rank. -/
def FirstsIncrease (rank : δ → ℕ) (ds : List δ) : Prop :=
  ds.eraseDups.Pairwise fun a b => rank a < rank b

instance (rank : δ → ℕ) (ds : List δ) : Decidable (FirstsIncrease rank ds) :=
  inferInstanceAs (Decidable (List.Pairwise _ _))

variable {rank : δ → ℕ} {ds : List δ}

theorem neverDecreases_snoc {d : δ} : NeverDecreases rank (ds ++ [d]) ↔
    NeverDecreases rank ds ∧ ∀ old, held ds = some old →
      ∃ new, held (ds ++ [d]) = some new ∧ rank old ≤ rank new := by
  constructor
  · intro h
    exact ⟨fun pre e post hl => h pre e (post ++ [d]) (by simp [hl]), h ds d [] rfl⟩
  · rintro ⟨hinit, hlast⟩ pre e post hl
    rcases List.eq_nil_or_concat post with rfl | ⟨post, e', rfl⟩
    · obtain ⟨rfl, he⟩ := List.append_inj' hl rfl
      obtain rfl := List.singleton_inj.mp he
      exact hlast
    · rw [List.concat_eq_append, ← List.cons_append, ← List.append_assoc] at hl
      exact hinit pre e post (List.append_inj' hl rfl).1

/-- When the first deliveries increase, the value held is the greatest delivered. -/
theorem rank_le_of_held (h : FirstsIncrease rank ds) {d : δ} (hd : held ds = some d) :
    ∀ e ∈ ds, rank e ≤ rank d := by
  intro e he
  obtain ⟨init, hinit⟩ := List.getLast?_eq_some_iff.mp hd
  rw [FirstsIncrease, hinit, List.pairwise_append] at h
  rw [← List.mem_eraseDups, hinit, List.mem_append, List.mem_singleton] at he
  rcases he with he | rfl
  · exact (h.2.2 e he d (by simp)).le
  · exact le_rfl

theorem firstsIncrease_snoc {d : δ} : FirstsIncrease rank (ds ++ [d]) ↔
    FirstsIncrease rank ds ∧ (d ∉ ds → ∀ e ∈ ds, rank e < rank d) := by
  rw [FirstsIncrease, eraseDups_snoc]
  by_cases hd : d ∈ ds
  · simp [hd, FirstsIncrease]
  · simp [hd, FirstsIncrease, List.pairwise_append, List.mem_eraseDups]

/-- Values of different ranks never lower the register exactly when their first deliveries
come in increasing rank. -/
theorem neverDecreases_iff (hrank : ∀ a ∈ ds, ∀ b ∈ ds, rank a = rank b → a = b) :
    NeverDecreases rank ds ↔ FirstsIncrease rank ds := by
  induction ds using List.reverseRecOn with
  | nil => simp [NeverDecreases, FirstsIncrease]
  | append_singleton ds d ih =>
      have hrank' : ∀ a ∈ ds, ∀ b ∈ ds, rank a = rank b → a = b := fun a ha b hb =>
        hrank a (List.mem_append_left _ ha) b (List.mem_append_left _ hb)
      rw [neverDecreases_snoc, firstsIncrease_snoc, ih hrank']
      refine and_congr_right fun hincrease => ?_
      by_cases hd : d ∈ ds
      · rw [held_snoc_of_mem hd]
        simp only [hd, not_true_eq_false, false_imp_iff, iff_true]
        exact fun old hold => ⟨old, hold, le_rfl⟩
      · rw [held_snoc_of_not_mem hd]
        simp only [Option.some.injEq, exists_eq_left', hd, not_false_eq_true, forall_const]
        constructor
        · intro h e he
          cases hheld : held ds with
          | none =>
              rw [held, List.getLast?_eq_none_iff] at hheld
              rw [← List.mem_eraseDups, hheld] at he
              exact absurd he List.not_mem_nil
          | some last =>
              have hle := (rank_le_of_held hincrease hheld e he).trans (h last hheld)
              refine lt_of_le_of_ne hle fun heq => hd ?_
              rw [← hrank e (by simp [he]) d (by simp) heq]
              exact he
        · intro h old hold
          exact (h old (mem_of_held hold)).le

end Redelivery
