import Mathlib.Algebra.GroupWithZero.Nat
import Mathlib.Data.List.Sort
import Mathlib.Data.List.Nodup
import Mathlib.Data.List.TakeDrop

/-!
# Splitting into chunks and putting them together

A sequence is cut into pieces of a fixed size, the last one possibly shorter. The
receiver keeps numbered pieces in any order; sorted by number they are the
sequence again exactly when every number is there.

## Main definitions

* `divCeil n size` — the number of pieces.
* `piece size l i`, `chunks size l` — the pieces.
-/
namespace Chunks

universe u v

variable {α : Type u} {β : Type v}

/-- `n.div_ceil(size)`. -/
def divCeil (n size : ℕ) : ℕ := (n + size - 1) / size

def piece (size : ℕ) (l : List α) (i : ℕ) : List α := (l.drop (i * size)).take size

/-- `l.chunks(size)`. -/
def chunks (size : ℕ) (l : List α) : List (List α) :=
  (List.range (divCeil l.length size)).map (piece size l)

theorem length_piece_le (size : ℕ) (l : List α) (i : ℕ) : (piece size l i).length ≤ size :=
  List.length_take_le ..

theorem le_divCeil_mul {n size : ℕ} (h : 0 < size) : n ≤ divCeil n size * size := by
  have hlt := Nat.lt_div_mul_add (a := n + size - 1) h
  rw [divCeil]
  omega

theorem divCeil_eq_zero_iff {n size : ℕ} (h : 0 < size) : divCeil n size = 0 ↔ n = 0 := by
  rw [divCeil, Nat.div_eq_zero_iff_lt h]
  omega

/-- The first `n` pieces are the first `n * size` elements. -/
theorem flatMap_piece_range (size : ℕ) (l : List α) (n : ℕ) :
    (List.range n).flatMap (piece size l) = l.take (n * size) := by
  induction n with
  | zero => simp
  | succ n ih =>
      rw [List.range_succ, List.flatMap_append, ih, List.flatMap_singleton, Nat.succ_mul,
        List.take_add, piece]

/-- The pieces together are the sequence. -/
theorem flatMap_piece {size : ℕ} (h : 0 < size) (l : List α) :
    (List.range (divCeil l.length size)).flatMap (piece size l) = l := by
  rw [flatMap_piece_range, List.take_of_length_le (le_divCeil_mul h)]

theorem chunks_nil (size : ℕ) : chunks size ([] : List α) = [] := by
  obtain rfl | hsize := Nat.eq_zero_or_pos size
  · simp [chunks, divCeil]
  · have hnone := (divCeil_eq_zero_iff (n := 0) hsize).mpr rfl
    rw [chunks, List.length_nil, hnone, List.range_zero, List.map_nil]

/-- A short sequence is one chunk. -/
theorem chunks_of_length_le {size : ℕ} {l : List α} (hne : l ≠ []) (h : l.length ≤ size) :
    chunks size l = [l] := by
  have hpos : 0 < l.length := List.length_pos_iff.mpr hne
  have hone : divCeil l.length size = 1 := by
    rw [divCeil, Nat.div_eq_iff (by omega)]
    omega
  rw [chunks, hone, List.range_one, List.map_singleton, piece, Nat.zero_mul, List.drop_zero,
    List.take_of_length_le h]

/-- A piece of the full size in front is the first chunk. -/
theorem chunks_append {size : ℕ} (h : 0 < size) {first rest : List α}
    (hfirst : first.length = size) : chunks size (first ++ rest) = first :: chunks size rest := by
  have hcount : divCeil (first ++ rest).length size = divCeil rest.length size + 1 := by
    rw [divCeil, divCeil, List.length_append, hfirst, ← Nat.add_div_right _ h]
    congr 1
    omega
  rw [chunks, hcount, List.range_succ_eq_map, List.map_cons, List.map_map, chunks]
  congr 1
  · rw [piece, Nat.zero_mul, List.drop_zero, ← hfirst, List.take_left]
  · apply List.map_congr_left
    intro i _
    rw [Function.comp_apply, piece, piece, Nat.succ_mul, Nat.add_comm, ← List.drop_drop, ← hfirst,
      List.drop_left]

/-- The first chunk, and the chunks of the rest. -/
theorem chunks_of_ne_nil {size : ℕ} (h : 0 < size) {l : List α} (hne : l ≠ []) :
    chunks size l = l.take size :: chunks size (l.drop size) := by
  obtain hle | hlt := Nat.le_total l.length size
  · rw [chunks_of_length_le hne hle, List.take_of_length_le hle, List.drop_of_length_le hle,
      chunks_nil]
  · calc
      chunks size l = chunks size (l.take size ++ l.drop size) := by rw [List.take_append_drop]
      _ = l.take size :: chunks size (l.drop size) :=
        chunks_append h (List.length_take_of_le hlt)

/-- The pieces have the elements of the sequence, no more and no less. -/
theorem sum_length_piece {size : ℕ} (h : 0 < size) (l : List α) :
    ((List.range (divCeil l.length size)).map fun i => (piece size l i).length).sum =
      l.length := by
  rw [← List.length_flatMap, flatMap_piece h]

theorem mem_of_mem_chunks {size : ℕ} {l c : List α} (h : c ∈ chunks size l) {x : α} (hx : x ∈ c) :
    x ∈ l := by
  obtain ⟨i, -, rfl⟩ := List.mem_map.mp h
  exact List.mem_of_mem_drop (List.mem_of_mem_take hx)

theorem ne_nil_of_mem_chunks {size : ℕ} (hsize : 0 < size) {l c : List α} (h : c ∈ chunks size l) :
    c ≠ [] := by
  obtain ⟨i, hi, rfl⟩ := List.mem_map.mp h
  rw [List.mem_range, divCeil, Nat.lt_iff_add_one_le, Nat.le_div_iff_mul_le hsize, Nat.succ_mul] at hi
  intro hnil
  have hlength := congrArg List.length hnil
  rw [piece, List.length_take, List.length_drop, List.length_nil] at hlength
  omega

/-! ## Numbered pieces -/

/-- Sorted by number, distinct rows are numbered `0 .. n` exactly when these are their numbers. -/
theorem map_fst_sorted_eq_range {rows : List (ℕ × β)} {n : ℕ}
    (hnodup : (rows.map Prod.fst).Nodup) :
    (rows.insertionSort fun a b => a.1 ≤ b.1).map Prod.fst = List.range n ↔
      ∀ i, i ∈ rows.map Prod.fst ↔ i < n := by
  have hperm : ((rows.insertionSort fun a b => a.1 ≤ b.1).map Prod.fst).Perm
      (rows.map Prod.fst) := (List.perm_insertionSort _ rows).map Prod.fst
  constructor
  · intro h i
    rw [← hperm.mem_iff, h, List.mem_range]
  · intro h
    have hrange : (rows.map Prod.fst).Perm (List.range n) := by
      rw [List.perm_ext_iff_of_nodup hnodup List.nodup_range]
      simpa using h
    have hsorted : ((rows.insertionSort fun a b => a.1 ≤ b.1).map Prod.fst).Pairwise (· ≤ ·) := by
      rw [List.pairwise_map]
      exact List.pairwise_insertionSort (r := fun a b : ℕ × β => a.1 ≤ b.1) rows
    exact (hperm.trans hrange).eq_of_pairwise' hsorted List.pairwise_le_range

/-- Rows numbered `0 .. n` whose values are determined by their numbers. -/
theorem flatMap_snd_of_map_fst {γ : Type v} {rows : List (ℕ × List γ)} {f : ℕ → List γ} {n : ℕ}
    (hrows : ∀ r ∈ rows, r.2 = f r.1) (h : rows.map Prod.fst = List.range n) :
    rows.flatMap Prod.snd = (List.range n).flatMap f := by
  rw [← h, List.flatMap_map]
  exact List.flatMap_congr hrows

end Chunks
