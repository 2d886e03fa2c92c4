import Codexwatch.Lib.Text

/-!
# Columns of a text

Cutting a text at white space, at line ends and at the first occurrence of a character.
A table whose columns are padded with blanks is read back word by word.

## Main definitions

* `words` — what stands between white space.
* `linesOf` — the lines, without their ends.
* `splitOnce` — the parts before and behind a character.
-/
namespace Text

/-- `str::split_whitespace` -/
def words (cs : List Char) : List (List Char) :=
  (cs.splitOnP isWhitespace).filter fun w => w ≠ []

/-- What is cut out of a text as one word. -/
structure Word (w : List Char) : Prop where
  ne_nil : w ≠ []
  solid : ∀ c ∈ w, isWhitespace c = false

/-- A blank ends a word, and everything about words follows from this. -/
theorem words_append_blank {c : Char} (hc : isWhitespace c = true) (before after : List Char) :
    words (before ++ c :: after) = words before ++ words after := by
  rw [words, List.splitOnP_append_cons before after hc, List.filter_append]
  rfl

theorem words_nil : words [] = [] := by simp [words]

theorem Word.words_eq {w : List Char} (hw : Word w) : words w = [w] := by
  rw [words, List.splitOnP_eq_singleton hw.solid]
  simp [hw.ne_nil]

theorem Word.words_cons {w : List Char} (hw : Word w) (rest : List Char) :
    words (w ++ ' ' :: rest) = w :: words rest := by
  rw [words_append_blank (by decide), hw.words_eq, List.singleton_append]

/-- Padding in front is no word. -/
theorem words_padded (n : ℕ) (rest : List Char) :
    words (List.replicate n ' ' ++ rest) = words rest := by
  induction n with
  | zero => rfl
  | succ n ih =>
      rw [List.replicate_succ, List.cons_append]
      have hcut := words_append_blank (c := ' ') (by decide) [] (List.replicate n ' ' ++ rest)
      rw [words_nil, List.nil_append, List.nil_append, ih] at hcut
      exact hcut

theorem Word.append {v w : List Char} (hv : Word v) (hw : Word w) : Word (v ++ w) where
  ne_nil := List.append_ne_nil_of_left_ne_nil hv.ne_nil w
  solid c hc := (List.mem_append.mp hc).elim (hv.solid c) (hw.solid c)

/-! ## Lines -/

/-- `str::lines`: what follows the last line feed is a line when it is not empty. -/
def linesOf (cs : List Char) : List (List Char) :=
  let parts := cs.splitOn '\n'
  (parts.dropLast.map fun line => if line.getLast? = some '\r' then line.dropLast else line) ++
    parts.getLast?.toList.filter fun line => line ≠ []

/-- A line as it is written: one line feed ends it. -/
structure Line (line : List Char) : Prop where
  lineFeed : '\n' ∉ line
  carriageReturn : line.getLast? ≠ some '\r'

theorem linesOf_terminated {lines : List (List Char)} (h : ∀ line ∈ lines, Line line) :
    linesOf (lines.flatMap fun line => line ++ ['\n']) = lines := by
  have hsplit : (lines.flatMap fun line => line ++ ['\n']).splitOn '\n' = lines ++ [[]] := by
    induction lines with
    | nil => rfl
    | cons line lines ih =>
        rw [List.forall_mem_cons] at h
        have hcut : (line :: lines).flatMap (fun line => line ++ ['\n']) =
            line ++ '\n' :: lines.flatMap fun line => line ++ ['\n'] := by simp
        rw [hcut, List.splitOn_append_cons_self, List.splitOn_eq_singleton h.1.lineFeed, ih h.2]
        rfl
  have hkept : (lines.map fun line =>
      if line.getLast? = some '\r' then line.dropLast else line) = lines := by
    conv_rhs => rw [← List.map_id lines]
    apply List.map_congr_left
    intro line hline
    rw [if_neg (h line hline).carriageReturn, id]
  simp only [linesOf, hsplit, List.getLast?_concat, List.dropLast_concat, hkept]
  simp

/-! ## The first occurrence -/

/-- `str::split_once` -/
def splitOnce (c : Char) (cs : List Char) : Option (List Char × List Char) :=
  if c ∈ cs then some (cs.takeWhile fun d => d ≠ c, (cs.dropWhile fun d => d ≠ c).tail) else none

theorem splitOnce_eq {c : Char} {before : List Char} (h : c ∉ before) (after : List Char) :
    splitOnce c (before ++ c :: after) = some (before, after) := by
  have hne : ∀ d ∈ before, decide (d ≠ c) = true := by
    intro d hd
    rw [decide_eq_true_iff]
    rintro rfl
    exact h hd
  rw [splitOnce, if_pos (by simp), List.takeWhile_append_of_pos hne,
    List.dropWhile_append_of_pos hne]
  simp

end Text
