import Mathlib.Data.List.Basic

/-!
# Lines that are whole

A log is read while it grows. Its lines end with a separator; what follows the last one is
a line that is not whole yet. A reader that keeps this rest and puts what comes next behind
it sees the lines of the whole log, wherever the log was cut.

## Main definitions

* `whole sep l` — the lines that have an end.
* `rest sep l` — what follows the last end.
-/
namespace Lines

universe u

variable {α : Type u} [BEq α] [LawfulBEq α] {sep : α} {a b l r u : List α}

/-- The lines that have an end, without it. -/
def whole (sep : α) (l : List α) : List (List α) := (l.splitOn sep).dropLast

/-- What follows the last end. -/
def rest (sep : α) (l : List α) : List α := (l.splitOn sep).getLastD []

/-- A list without the separator, or its last occurrence. -/
theorem cases_last (sep : α) (l : List α) :
    sep ∉ l ∨ ∃ u r, l = u ++ sep :: r ∧ sep ∉ r := by
  by_cases h : sep ∈ l
  · right
    obtain ⟨r, u, hl, hr⟩ := List.eq_append_cons_of_mem (List.mem_reverse.mpr h)
    refine ⟨u.reverse, r.reverse, ?_, by simpa using hr⟩
    have hl' := congrArg List.reverse hl
    simpa using hl'
  · exact .inl h

section Cut

theorem whole_of_not_mem (h : sep ∉ l) : whole sep l = [] := by
  rw [whole, List.splitOn_eq_singleton h]
  rfl

theorem rest_of_not_mem (h : sep ∉ l) : rest sep l = l := by
  rw [rest, List.splitOn_eq_singleton h]
  rfl

theorem whole_append_cons (h : sep ∉ r) : whole sep (u ++ sep :: r) = u.splitOn sep := by
  rw [whole, List.splitOn_append_cons_self, List.splitOn_eq_singleton h, List.dropLast_concat]

theorem rest_append_cons (h : sep ∉ r) : rest sep (u ++ sep :: r) = r := by
  rw [rest, List.splitOn_append_cons_self, List.splitOn_eq_singleton h]
  simp

end Cut

@[simp] theorem whole_nil : whole sep ([] : List α) = [] := whole_of_not_mem List.not_mem_nil

@[simp] theorem rest_nil : rest sep ([] : List α) = [] := rest_of_not_mem List.not_mem_nil

/-- What is cut off in front of a line is as good as gone for it. -/
theorem splitOn_append (sep : α) (a b : List α) :
    (a ++ b).splitOn sep = whole sep a ++ (rest sep a ++ b).splitOn sep := by
  obtain h | ⟨u, r, rfl, hr⟩ := cases_last sep a
  · rw [whole_of_not_mem h, rest_of_not_mem h, List.nil_append]
  · rw [whole_append_cons hr, rest_append_cons hr, List.append_assoc, List.cons_append,
      List.splitOn_append_cons_self]

/-- The reader goes on with the rest. -/
theorem whole_append (sep : α) (a b : List α) :
    whole sep (a ++ b) = whole sep a ++ whole sep (rest sep a ++ b) := by
  rw [whole, splitOn_append, List.dropLast_append_of_ne_nil (List.splitOn_ne_nil sep _)]
  rfl

theorem rest_append (sep : α) (a b : List α) :
    rest sep (a ++ b) = rest sep (rest sep a ++ b) := by
  rw [rest, splitOn_append, List.getLastD_eq_getLast?, List.getLast?_append_of_ne_nil _
    (List.splitOn_ne_nil sep _), ← List.getLastD_eq_getLast?]
  rfl

end Lines
