import Mathlib.Algebra.Group.Nat.Defs
import Mathlib.Data.List.Basic

/-!
# Sums and ranges that may be out of range

A program on 64-bit words that adds, and takes ranges of a sequence, does so at a risk: the sum
may not fit in a word, and the range may lie outside the sequence. Here such a step has no
result (`none`), and what is left to prove of a program is that it has one.

A sequence in memory is shorter than `2 ^ 63`, so that its cursors can be added to.

## Main definitions

* `Checked.add` — a sum of words.
* `Checked.slice`, `Checked.suffix`, `Checked.drain` — ranges.
* `Checked.InMemory` — the length a sequence in memory has.
-/
namespace Checked

universe u

variable {α : Type u} {xs : List α} {a b lo hi n : ℕ}

/-- `a + b`, which has to fit. -/
def add (a b : ℕ) : Option ℕ := if a + b < 2 ^ 64 then some (a + b) else none

/-- `xs[lo..hi]` -/
def slice (xs : List α) (lo hi : ℕ) : Option (List α) :=
  if lo ≤ hi ∧ hi ≤ xs.length then some ((xs.take hi).drop lo) else none

/-- `xs[lo..]` -/
def suffix (xs : List α) (lo : ℕ) : Option (List α) :=
  if lo ≤ xs.length then some (xs.drop lo) else none

/-- `xs.drain(..n)`, and what it leaves. -/
def drain (xs : List α) (n : ℕ) : Option (List α × List α) :=
  if n ≤ xs.length then some (xs.splitAt n) else none

/-- The length of what is in memory: at most `isize::MAX`. -/
def InMemory (xs : List α) : Prop := xs.length < 2 ^ 63

instance (xs : List α) : Decidable (InMemory xs) :=
  inferInstanceAs (Decidable (xs.length < 2 ^ 63))

theorem add_eq_some (h : a + b < 2 ^ 64) : add a b = some (a + b) := if_pos h

theorem add_eq_none (h : 2 ^ 64 ≤ a + b) : add a b = none := if_neg (Nat.not_lt.mpr h)

/-- A cursor in a sequence can be added to. -/
theorem add_of_le (h : InMemory xs) (ha : a ≤ xs.length) (hb : b < 2 ^ 63) :
    add a b = some (a + b) := by
  rw [InMemory] at h
  exact add_eq_some (by omega)

theorem slice_eq_some (hlo : lo ≤ hi) (hhi : hi ≤ xs.length) :
    slice xs lo hi = some ((xs.take hi).drop lo) := if_pos ⟨hlo, hhi⟩

theorem slice_eq_none (h : xs.length < hi) : slice xs lo hi = none :=
  if_neg fun hrange => Nat.not_lt.mpr hrange.2 h

/-- A range behind what comes first. -/
theorem slice_append (before xs : List α) (lo hi : ℕ) :
    slice (before ++ xs) (before.length + lo) (before.length + hi) = slice xs lo hi := by
  rw [slice, slice, List.length_append, List.take_length_add_append, List.drop_length_add_append]
  simp only [Nat.add_le_add_iff_left]

theorem suffix_eq_some (h : lo ≤ xs.length) : suffix xs lo = some (xs.drop lo) := if_pos h

theorem drain_eq_some (h : n ≤ xs.length) : drain xs n = some (xs.splitAt n) := if_pos h

end Checked
